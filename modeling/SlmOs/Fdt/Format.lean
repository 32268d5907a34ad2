import SlmOs.Foundation.Wire

/-!
# Flattened device trees

The structure block of a flattened device tree is a sequence of tokens, each aligned to
four bytes.  A tree is written in document order, a node's properties before its children,
and any number of NOP tokens may stand anywhere between the others.
-/

namespace SlmOs.Fdt

open Foundation

def fdtMagic : Nat := 0xd00dfeed
def fdtVersion : Nat := 17

def fdtBeginNode : Nat := 0x01
def fdtEndNode : Nat := 0x02
def fdtProp : Nat := 0x03
def fdtNop : Nat := 0x04
def fdtEnd : Nat := 0x09

/-! ## Numbers and padding -/

def beNat (bs : Bytes) : Nat := leNat bs.reverse

def be32 (n : Nat) : Bytes := (toLe 4 n).reverse

@[simp] theorem be32_length (n : Nat) : (be32 n).length = 4 := by
  simp [be32]

theorem beNat_be32 (h : n < 2 ^ 32) : beNat (be32 n) = n := by
  unfold beNat be32
  rw [List.reverse_reverse]
  exact leNat_toLe h

theorem leNat_lt (bs : Bytes) : leNat bs < 256 ^ bs.length := by
  induction bs with
  | nil => exact Nat.one_pos
  | cons b bs ih =>
    have hb := b.toNat_lt
    rw [leNat, List.length_cons, Nat.pow_succ]
    omega

theorem beNat_lt (h : bs.length ≤ 4) : beNat bs < 2 ^ 32 := by
  have hlt := leNat_lt bs.reverse
  rw [List.length_reverse] at hlt
  exact hlt.trans_le (Nat.pow_le_pow_right (by decide) h)

def padding (n : Nat) : Bytes := List.replicate ((4 - n % 4) % 4) 0

def padded (n : Nat) : Nat := n + (4 - n % 4) % 4

/-- `(v + 3u) & ~3u` on 32 bits -/
def align4 (v : Nat) : Nat := (v + 3) % 2 ^ 32 / 4 * 4

theorem align4_eq (h : padded n < 2 ^ 32) : align4 n = padded n := by
  unfold align4 padded at *
  omega

theorem padding_length (n : Nat) : n + (padding n).length = padded n := by
  simp [padding, padded]

theorem dvd_padded (n : Nat) : 4 ∣ padded n := by
  unfold padded
  omega

/-! ## Tokens -/

/-- A property, with the place of its name in the strings block. -/
structure Property where
  name : Bytes
  nameoff : Nat
  value : Bytes
  deriving DecidableEq, Repr

inductive Token where
  | beginNode (name : Bytes)
  | endNode
  | prop (p : Property)
  | nop
  | fin
  deriving DecidableEq, Repr

def Token.counts : Token → Bool
  | .nop => false
  | .beginNode _ | .endNode | .prop _ | .fin => true

def Token.encode : Token → Bytes
  | .beginNode name => be32 fdtBeginNode ++ (name ++ 0 :: padding (name.length + 1))
  | .endNode => be32 fdtEndNode
  | .prop p => be32 fdtProp ++ (be32 p.value.length ++ (be32 p.nameoff ++
      (p.value ++ padding p.value.length)))
  | .nop => be32 fdtNop
  | .fin => be32 fdtEnd

def encodeAll (ts : List Token) : Bytes := ts.flatMap Token.encode

@[simp] theorem encodeAll_cons (t : Token) (ts : List Token) :
    encodeAll (t :: ts) = t.encode ++ encodeAll ts := rfl

theorem Token.encode_length (t : Token) : 4 ∣ t.encode.length ∧ 4 ≤ t.encode.length := by
  cases t with
  | beginNode name =>
    have hpad := padding_length (name.length + 1)
    have hdvd := dvd_padded (name.length + 1)
    simp only [encode, List.length_append, List.length_cons, be32_length]
    omega
  | prop p =>
    have hpad := padding_length p.value.length
    have hdvd := dvd_padded p.value.length
    simp only [encode, List.length_append, be32_length]
    omega
  | endNode | nop | fin => simp [encode]

/-! ## Trees -/

/-- The nodes below a node, in order: the first one with what is below it, and the rest. -/
inductive Forest where
  | nil
  | node (name : Bytes) (props : List Property) (children next : Forest)
  deriving DecidableEq, Repr

structure Tree where
  name : Bytes
  props : List Property
  children : Forest
  deriving DecidableEq, Repr

def Forest.tokens : Forest → List Token
  | .nil => []
  | .node name props children next =>
    .beginNode name :: (props.map .prop ++ (children.tokens ++ .endNode :: next.tokens))

def Tree.tokens (t : Tree) : List Token :=
  .beginNode t.name :: (t.props.map .prop ++ (t.children.tokens ++ [.endNode, .fin]))

def Forest.chains : Forest → List (List Bytes)
  | .nil => []
  | .node name _ children next =>
    [name] :: (children.chains.map (name :: ·) ++ next.chains)

def Tree.chains (t : Tree) : List (List Bytes) := [] :: t.children.chains

def Forest.nodeProps : Forest → List (List Property)
  | .nil => []
  | .node _ props children next => props :: (children.nodeProps ++ next.nodeProps)

def Tree.nodeProps (t : Tree) : List (List Property) := t.props :: t.children.nodeProps

def Property.NamedIn (p : Property) (strings : Bytes) : Prop :=
  0 ∉ p.name ∧ ∃ tail, strings.drop p.nameoff = p.name ++ 0 :: tail

structure Document (t : Tree) (ts : List Token) (strings : Bytes) : Prop where
  tokens : ts.filter Token.counts = t.tokens
  names : ∀ name, .beginNode name ∈ ts → 0 ∉ name
  props : ∀ p, .prop p ∈ ts → p.NamedIn strings
  size : (encodeAll ts).length < 2 ^ 32
  strings_size : strings.length < 2 ^ 32

/-! ## Tokens with their offsets -/

def label : Nat → List Token → List (Token × Nat)
  | _, [] => []
  | off, t :: ts => (t, off) :: label (off + t.encode.length) ts

@[simp] theorem label_map_fst (off : Nat) (ts : List Token) : (label off ts).map Prod.fst = ts := by
  induction ts generalizing off with
  | nil => rfl
  | cons t ts ih => simp [label, ih]

def begins : List (Token × Nat) → List Nat
  | [] => []
  | (.beginNode _, off) :: ts => off :: begins ts
  | _ :: ts => begins ts

def nodeOffsets (ts : List Token) : List Nat := begins (label 0 ts)

end SlmOs.Fdt
