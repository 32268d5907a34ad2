import SlmOs.Telnet.Session

/-!
# Reading the transmitted stream

The other end of the connection: a decoder for the telnet protocol that splits a byte
stream into data bytes, commands, options and subnegotiations.  It reads the responses of
the parser as commands, with the exception of the answer to "Are You There", and the bytes
that the write functions put into the transmit ring as the payload.
-/

namespace SlmOs.Telnet

open Foundation List

/-! ## The decoder -/

inductive Token
  | data (byte : UInt8)
  | command (cmd : UInt8)
  | option (verb opt : UInt8)
  | subneg (payload : Bytes)
  deriving DecidableEq, Repr

def Token.isData : Token → Bool
  | .data _ => true
  | .command _ => false
  | .option _ _ => false
  | .subneg _ => false

inductive DecodeState
  | data
  | iac
  | option (verb : UInt8)
  | sub (payload : Bytes)
  | subIac (payload : Bytes)
  deriving DecidableEq, Repr

def decodeByte : DecodeState → UInt8 → DecodeState × List Token
  | .data, b => if b = telnetIac then (.iac, []) else (.data, [.data b])
  | .iac, b =>
    if b = telnetIac then (.data, [.data b])
    else if b = telnetWill ∨ b = telnetWont ∨ b = telnetDo ∨ b = telnetDont then
      (.option b, [])
    else if b = telnetSb then (.sub [], [])
    else (.data, [.command b])
  | .option verb, b => (.data, [.option verb b])
  | .sub payload, b =>
    if b = telnetIac then (.subIac payload, []) else (.sub (payload ++ [b]), [])
  | .subIac payload, b =>
    if b = telnetSe then (.data, [.subneg payload])
    else if b = telnetIac then (.sub (payload ++ [b]), [])
    else (.data, [.subneg payload, .command b])

def decode : DecodeState → Bytes → DecodeState × List Token
  | s, [] => (s, [])
  | s, b :: bs =>
    let r := decodeByte s b
    let rest := decode r.1 bs
    (rest.1, r.2 ++ rest.2)

theorem decode_append (s : DecodeState) (xs ys : Bytes) : decode s (xs ++ ys) =
      ((decode (decode s xs).1 ys).1, (decode s xs).2 ++ (decode (decode s xs).1 ys).2) := by
  induction xs generalizing s with
  | nil => rfl
  | cons x xs ih => simp [decode, ih]

theorem decode_cons (h : b ≠ telnetIac) (bs : Bytes) :
    decode .data (b :: bs) = ((decode .data bs).1, .data b :: (decode .data bs).2) := by
  simp [decode, decodeByte, h]

theorem decode_escaped (bs : Bytes) : decode .data (telnetIac :: telnetIac :: bs) =
      ((decode .data bs).1, .data telnetIac :: (decode .data bs).2) := by
  simp [decode, decodeByte]

/-! ## Responses -/

theorem IsResponse.length_le (h : IsResponse r) : r.length ≤ 12 := by
  cases h with
  | option cmd opt hcmd => exact Nat.le_of_ble_eq_true rfl
  | _ => decide

theorem IsResponse.decode_state (h : IsResponse r) : (decode .data r).1 = .data := by
  cases h with
  | option cmd opt hcmd => rcases hcmd with rfl | rfl | rfl | rfl <;> rfl
  | _ => rfl

theorem IsResponse.commands (h : IsResponse r) (hayt : r ≠ aytMarker) :
    ∀ t ∈ (decode .data r).2, t.isData = false := by
  cases h with
  | option cmd opt hcmd =>
    have htokens : (decode .data [telnetIac, cmd, opt]).2 = [.option cmd opt] := by
      rcases hcmd with rfl | rfl | rfl | rfl <;> rfl
    rw [htokens]
    simp [Token.isData]
  | ttypeRequest | initial => decide
  | ayt => exact absurd rfl hayt

/-! ## Payload -/

def wire : Bool → List (WriteKind × UInt8) → Bytes
  | _, [] => []
  | prev, (kind, c) :: rest => encodeByte kind prev c ++ wire (nextPrev kind c) rest

/-- `tx_prev_was_cr` after a sequence of payload bytes. -/
def prevAfter : Bool → List (WriteKind × UInt8) → Bool
  | prev, [] => prev
  | _, (kind, c) :: rest => prevAfter (nextPrev kind c) rest

theorem wire_append (prev : Bool) (xs ys : List (WriteKind × UInt8)) :
    wire prev (xs ++ ys) = wire prev xs ++ wire (prevAfter prev xs) ys := by
  induction xs generalizing prev with
  | nil => rfl
  | cons x xs ih => simp [wire, prevAfter, ih]

theorem prevAfter_append (prev : Bool) (xs ys : List (WriteKind × UInt8)) :
    prevAfter prev (xs ++ ys) = prevAfter (prevAfter prev xs) ys := by
  induction xs generalizing prev with
  | nil => rfl
  | cons x xs ih => exact ih _

/-- What the reader is to get: raw bytes as they are, and text with a CR before each LF
that does not follow a CR of the text. -/
def rendered : Bool → List (WriteKind × UInt8) → Bytes
  | _, [] => []
  | prev, (.text, c) :: rest =>
    if c = lf ∧ !prev then cr :: lf :: rendered false rest
    else c :: rendered (c = cr) rest
  | _, (.raw, c) :: rest => c :: rendered false rest

theorem rendered_monotone (prev : Bool) (h : xs <+: ys) :
    rendered prev xs <+: rendered prev ys := by
  induction xs generalizing prev ys with
  | nil => exact nil_prefix
  | cons x xs ih =>
    obtain ⟨zs, rfl⟩ := h
    obtain ⟨kind, c⟩ := x
    have hrest : ∀ prev, rendered prev xs <+: rendered prev (xs ++ zs) :=
      fun prev => ih prev (prefix_append xs zs)
    cases kind with
    | raw =>
      simp only [rendered, cons_append]
      exact (prefix_cons_inj _).mpr (hrest _)
    | text =>
      simp only [rendered, cons_append]
      split
      · exact (prefix_cons_inj _).mpr ((prefix_cons_inj _).mpr (hrest _))
      · exact (prefix_cons_inj _).mpr (hrest _)

def TextOk (log : List (WriteKind × UInt8)) : Prop := (.text, telnetIac) ∉ log

theorem decode_wire (prev : Bool) (log : List (WriteKind × UInt8)) (h : TextOk log) :
    decode .data (wire prev log) = (.data, (rendered prev log).map .data) := by
  induction log generalizing prev with
  | nil => rfl
  | cons x log ih =>
    obtain ⟨kind, c⟩ := x
    have hrest : TextOk log := fun hmem => h (mem_cons_of_mem _ hmem)
    cases kind with
    | raw =>
      by_cases hiac : c = telnetIac
      · subst hiac
        change decode .data (telnetIac :: telnetIac :: wire false log) = _
        rw [decode_escaped, ih false hrest]
        rfl
      have hwire : wire prev ((.raw, c) :: log) = c :: wire false log := by
        simp [wire, encodeByte, nextPrev, hiac]
      rw [hwire, decode_cons hiac, ih false hrest]
      rfl
    | text =>
      have hne : c ≠ telnetIac := by
        rintro rfl
        exact h mem_cons_self
      by_cases hlf : c = lf ∧ (!prev) = true
      · obtain ⟨rfl, hprev⟩ := hlf
        have hwire : wire prev ((.text, lf) :: log) = cr :: lf :: wire false log := by
          simp only [wire, encodeByte, hprev, and_self, if_true]
          rfl
        rw [hwire, decode_cons (by decide), decode_cons hne, ih false hrest]
        simp [rendered, hprev]
      have hwire : wire prev ((.text, c) :: log) = c :: wire (c = cr) log := by
        simp only [wire, encodeByte, if_neg hlf]
        rfl
      rw [hwire, decode_cons hne, ih _ hrest]
      simp only [rendered, if_neg hlf, map_cons]

/-! ## Interleaving -/

/-- The elements of a list, in order, with blocks between them. -/
inductive Interleaved {α : Type} : List α → List (List α) → List α → Prop
  | nil : Interleaved [] [] []
  | element {xs bs zs} (x : α) (h : Interleaved xs bs zs) : Interleaved (x :: xs) bs (x :: zs)
  | block {xs bs zs} (b : List α) (h : Interleaved xs bs zs) : Interleaved xs (b :: bs) (b ++ zs)

namespace Interleaved

variable {α : Type}

theorem elements (xs : List α) : Interleaved xs [] xs := by
  induction xs with
  | nil => exact .nil
  | cons x xs ih => exact .element x ih

theorem append_elements (h : Interleaved xs bs zs)
    (ys : List α) : Interleaved (xs ++ ys) bs (zs ++ ys) := by
  induction h with
  | nil => exact elements ys
  | element x _ ih => exact .element x ih
  | block b _ ih =>
    rw [append_assoc]
    exact .block b ih

theorem append_block (h : Interleaved xs bs zs)
    (b : List α) : Interleaved xs (bs ++ [b]) (zs ++ b) := by
  induction h with
  | nil => simpa using block b nil
  | element x _ ih => exact .element x ih
  | block b' _ ih =>
    rw [append_assoc]
    exact .block b' ih

end Interleaved

/-! ## The parser as a decoder -/

inductive Decodes : TelnetState → DecodeState → Prop
  | data : Decodes .data .data
  -- left from text mode
  | cr : Decodes .cr .data
  | iac : Decodes .iac .iac
  | will : Decodes .optWill (.option v)
  | wont : Decodes .optWont (.option v)
  | «do» : Decodes .optDo (.option v)
  | dont : Decodes .optDont (.option v)
  | sb : Decodes .sb (.sub p)
  | sbIac : Decodes .sbIac (.subIac p)

def Effect.data? : Effect → Option Token
  | .injectRx byte => some (.data byte)
  | _ => none

theorem Decodes.step (h : Decodes tp.state s) (hbinary : tp.binaryMode = true) (b : UInt8) :
    Decodes (telnetRxByte tp b).1.state (decodeByte s b).1 ∧
      (telnetRxByte tp b).2.filterMap Effect.data? = (decodeByte s b).2.filter Token.isData := by
  obtain ⟨state, subneg, flags, binary⟩ := tp
  cases hbinary
  cases h with
  | data | cr | sb =>
    simp only [telnetRxByte, decodeByte, Bool.not_true, Bool.false_eq_true, and_false, if_false]
    split_ifs <;> exact ⟨by constructor, rfl⟩
  | iac =>
    by_cases hiac : b = telnetIac
    · subst hiac
      exact ⟨.data, rfl⟩
    simp only [telnetRxByte, handleIacCmd, decodeByte]
    split_ifs <;> simp_all [Effect.data?, Token.isData] <;> constructor
  | sbIac =>
    simp only [telnetRxByte, decodeByte, handleSubneg]
    split
    · refine ⟨.data, ?_⟩
      split <;> (try split_ifs) <;> rfl
    · split <;> exact ⟨by constructor, rfl⟩
  | _ =>
    refine ⟨.data, ?_⟩
    simp only [telnetRxByte, TelnetParser.optDone, handleOptWill, handleOptWont, handleOptDo,
      handleOptDont]
    split_ifs <;> rfl

/-- In binary mode the parser takes from any stream the data that the decoder finds in it. -/
theorem binary_parser_decodes (h : Decodes tp.state s) (hbinary : tp.binaryMode = true)
    (bs : Bytes) :
    (telnetRx tp bs).2.filterMap Effect.data? = (decode s bs).2.filter Token.isData := by
  induction bs generalizing tp s with
  | nil => rfl
  | cons b bs ih =>
    obtain ⟨hstate, hdata⟩ := h.step hbinary b
    rw [telnetRx, decode, filterMap_append, filter_append, hdata,
      ih hstate ((telnetRxByte_binaryMode tp b).trans hbinary)]

theorem binary_parser_decodes_iac :
    (telnetRx { telnetInit with binaryMode := true } [telnetIac, telnetIac]).2.filterMap
      Effect.data? = [.data telnetIac] :=
  binary_parser_decodes (s := .data) .data rfl _

end SlmOs.Telnet
