import SlmOs.Foundation.Wire

/-!
# Text from token ids

The decoder hands the text of each token to the callback as soon as it is sampled.  What
is not valid UTF-8 in the bytes of a call is replaced there, so that the texts add up to
the text of the whole answer only where no character is spread over several tokens.
-/

namespace SlmOs.Slm.Decode

open String (utf8EncodeChar)
open Foundation List

def fromUtf8 (bytes : Bytes) : Option (List Char) :=
  bytes.toByteArray.utf8Decode?.map Array.toList

def byteToUnicodeChar (b : UInt8) : Char :=
  let c := b.toNat
  Char.ofNat <|
    if c ≤ 0x1F then 0x100 + c
    else if c = 0x20 then 0x120
    else if c ≤ 0x7E then c
    else if c ≤ 0xA0 then 0x121 + (c - 0x7F)
    else if c ≤ 0xAC then c
    else if c = 0xAD then 0x143
    else c

def unicodeCharToByte (ch : Char) : Option UInt8 :=
  let c := ch.toNat
  if 0x21 ≤ c ∧ c ≤ 0x7E ∨ 0xA1 ≤ c ∧ c ≤ 0xAC ∨ 0xAE ≤ c ∧ c ≤ 0xFF then some c.toUInt8
  else if 0x100 ≤ c ∧ c ≤ 0x11F then some (c - 0x100).toUInt8
  else if c = 0x120 then some 0x20
  else if 0x121 ≤ c ∧ c ≤ 0x142 then some (0x7F + (c - 0x121).toUInt8)
  else if c = 0x143 then some 0xAD
  else none

structure BbpeTokenizer where
  vocab : List Bytes
  byteForId : List (Option UInt8)
  specialIdsToBytes : Nat → Option Bytes
  byteForId_length : byteForId.length = vocab.length

namespace BbpeTokenizer

def body (tk : BbpeTokenizer) (renderSpecials : Bool) (id : Nat) : Bytes :=
  match tk.specialIdsToBytes id with
  | some name => if renderSpecials then name else []
  | none =>
    match tk.vocab[id]?, tk.byteForId[id]? with
    | some _, some (some b) => utf8EncodeChar (byteToUnicodeChar b)
    | some text, some none => text
    | _, _ => []

end BbpeTokenizer

def rawBytes (s : List Char) : Bytes :=
  s.flatMap fun ch => (unicodeCharToByte ch).elim (utf8EncodeChar ch) fun b => [b]

/-- `Utf8Error::valid_up_to`: the longest valid beginning. -/
def validUpTo (bytes : Bytes) : Nat :=
  ((range (bytes.length + 1)).reverse.find? fun n => (fromUtf8 (bytes.take n)).isSome).getD 0

def replacement : Char := Char.ofNat 0xFFFD

def replaceInvalid (bad : Bytes) : List Char :=
  match bad with
  | [] => []
  | b :: rest =>
    if b < 0x80 then Char.ofNat b.toNat :: replaceInvalid rest
    else
      match fromUtf8 (b :: rest) with
      | some s => s
      | none =>
        let valid := validUpTo (b :: rest)
        if 0 < valid then
          (fromUtf8 ((b :: rest).take valid)).getD [] ++ replaceInvalid ((b :: rest).drop valid)
        else replacement :: replaceInvalid rest
termination_by bad.length
decreasing_by
  all_goals simp
  omega

section

-- `String::from_utf8_lossy`
variable (lossy : Bytes → List Char) (tk : BbpeTokenizer)

def decodeInner (ids : List Nat) (renderSpecials : Bool) : List Char :=
  let encoded := ids.flatMap (tk.body renderSpecials)
  let bytes := rawBytes ((fromUtf8 encoded).getD (lossy encoded))
  (fromUtf8 bytes).getD (replaceInvalid bytes)

def decode (ids : List Nat) : List Char := decodeInner lossy tk ids false

def emitToken (tokenizer : Option BbpeTokenizer) (tokenId : Nat) : Bytes :=
  (tokenizer.elim [] fun tk => decode lossy tk [tokenId]).flatMap utf8EncodeChar

end

/-- The text of the token, and the bytes that it stands for, are whole characters. -/
def Whole (tk : BbpeTokenizer) (id : Nat) : Prop :=
  ∃ s ∈ fromUtf8 (tk.body false id), (fromUtf8 (rawBytes s)).isSome

theorem fromUtf8_eq_some : fromUtf8 bytes = some s ↔ s.flatMap utf8EncodeChar = bytes := by
  constructor
  · intro h
    obtain ⟨a, ha, rfl⟩ := Option.map_eq_some_iff.mp h
    have hget := ByteArray.utf8Encode_get_utf8Decode? (b := bytes.toByteArray) (h := by simp [ha])
    simp only [ha, Option.get_some, utf8Encode] at hget
    simpa using congrArg (·.data.toList) hget
  rintro rfl
  rw [fromUtf8, ← utf8Encode, utf8Decode?_utf8Encode]
  rfl

theorem fromUtf8_append (ha : fromUtf8 a = some s)
    (hb : fromUtf8 b = some t) : fromUtf8 (a ++ b) = some (s ++ t) := by
  rw [fromUtf8_eq_some] at ha hb ⊢
  rw [flatMap_append, ha, hb]

/-- Where every token is whole, both of the conversions succeed on all of them together. -/
theorem decode_of_whole (lossy : Bytes → List Char) {tk : BbpeTokenizer} {ids : List Nat}
    (h : ∀ id ∈ ids, Whole tk id) : ∃ s ∈ fromUtf8 (ids.flatMap (tk.body false)),
      fromUtf8 (rawBytes s) = some (ids.flatMap fun id => decode lossy tk [id]) := by
  induction ids with
  | nil => exact ⟨[], fromUtf8_eq_some.mpr rfl, fromUtf8_eq_some.mpr rfl⟩
  | cons id ids ih =>
    obtain ⟨s, hs, hraw⟩ := h id mem_cons_self
    obtain ⟨out, hout⟩ := Option.isSome_iff_exists.mp hraw
    obtain ⟨t, ht, hrest⟩ := ih fun id' hid => h id' (mem_cons_of_mem _ hid)
    have hone : decode lossy tk [id] = out := by
      simp [decode, decodeInner, Option.mem_def.mp hs, hout]
    refine ⟨s ++ t, fromUtf8_append hs ht, ?_⟩
    rw [rawBytes, flatMap_append, flatMap_cons, hone]
    exact fromUtf8_append hout hrest

/-- The callback has received the text of the whole answer. -/
theorem streamed_eq_decoded (lossy : Bytes → List Char) (tk : BbpeTokenizer)
    {ids : List Nat} (h : ∀ id ∈ ids, Whole tk id) :
    ids.flatMap (emitToken lossy (some tk)) = (decode lossy tk ids).flatMap utf8EncodeChar := by
  obtain ⟨s, hs, hraw⟩ := decode_of_whole lossy h
  have hall : decode lossy tk ids = ids.flatMap fun id => decode lossy tk [id] := by
    simp [decode, decodeInner, Option.mem_def.mp hs, hraw]
  rw [hall, flatMap_assoc]
  rfl

/-- The tokens `<0xC3>`, `<0xA9>` and `a`. -/
def threeTokens : BbpeTokenizer where
  vocab := [[], [], [0x61]]
  byteForId := [some 0xC3, some 0xA9, none]
  specialIdsToBytes _ := none
  byteForId_length := rfl

theorem streamed_eq_decoded_ascii : Whole threeTokens 2 ∧
    [2, 2].flatMap (emitToken (fun _ => []) (some threeTokens)) =
      (decode (fun _ => []) threeTokens [2, 2]).flatMap utf8EncodeChar := by
  have ha : fromUtf8 [0x61] = some ['a'] := fromUtf8_eq_some.mpr rfl
  have h : Whole threeTokens 2 := ⟨['a'], ha, Option.isSome_iff_exists.mpr ⟨['a'], ha⟩⟩
  exact ⟨h, streamed_eq_decoded _ _ (by simpa using h)⟩

/-- The two bytes of `é` come in two tokens. -/
theorem streamed_split_character : decode (fun _ => []) threeTokens [0, 1] = ['é'] ∧
    [0, 1].flatMap (emitToken (fun _ => []) (some threeTokens)) ≠ utf8EncodeChar 'é' := by
  decide +kernel

end SlmOs.Slm.Decode
