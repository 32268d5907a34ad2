import SlmOs.Fdt.Format

/-!
# The device tree reader

`kernel/lib/fdt/fdt.c`.  A pointer into a block is what is left of the block from there on.
The functions stop with a status of the library, or, if a read would leave the block,
with a `fault`; a loop that has no fuel left is `stuck`.
-/

namespace SlmOs.Fdt

open Foundation

inductive Status where
  | badMagic
  | badVersion
  | notFound
  | badStruct
  | invalid
  deriving DecidableEq, Repr

inductive Stop where
  | status (s : Status)
  | fault
  | stuck
  deriving DecidableEq, Repr

abbrev Outcome := Except Stop

/-! ## Reads -/

def readBe32 (p : Bytes) : Outcome Nat :=
  if 4 ≤ p.length then .ok (beNat (p.take 4)) else .error .fault

/-- `none` is the -1 of an unterminated string. -/
def boundedStrlen (p : Bytes) : Option Nat :=
  let n := (p.takeWhile (· ≠ 0)).length
  if n = p.length then none else some n

def cString (p : Bytes) : Outcome Bytes :=
  let s := p.takeWhile (· ≠ 0)
  if s.length = p.length then .error .fault else .ok s

def boundedStrMatch (p pattern : Bytes) : Outcome Bool :=
  match boundedStrlen p with
  | none => .error (.status .badStruct)
  | some _ => (cString p).map (· = pattern)

def skipName (p : Bytes) : Outcome Bytes :=
  match boundedStrlen p with
  | none => .error (.status .badStruct)
  | some n =>
    let size := (n + 1) % 2 ^ 32
    let skip := align4 size
    if skip < size ∨ p.length < skip then .error (.status .badStruct)
    else .ok (p.drop skip)

def skipValue (p : Bytes) (len : Nat) : Outcome Bytes :=
  let skip := align4 len
  if skip < len ∨ p.length < skip then .error (.status .badStruct)
  else .ok (p.drop skip)

/-! ## The handle -/

structure FdtHandle where
  blob : Nat → UInt8
  totalsize : Nat
  offStruct : Nat
  sizeStruct : Nat
  offStrings : Nat
  sizeStrings : Nat
  version : Nat

def slice (blob : Nat → UInt8) (off size : Nat) : Bytes :=
  (List.range size).map fun i => blob (off + i)

def headerField (blob : Nat → UInt8) (index : Nat) : Nat :=
  beNat (slice blob (4 * index) 4)

def fdtInit (blob : Nat → UInt8) : Outcome FdtHandle :=
  let totalsize := headerField blob 1
  let offStruct := headerField blob 2
  let offStrings := headerField blob 3
  let version := headerField blob 5
  let sizeStrings := headerField blob 8
  let sizeStruct := headerField blob 9
  if headerField blob 0 ≠ fdtMagic then .error (.status .badMagic)
  else if version < fdtVersion then .error (.status .badVersion)
  else if (offStruct + sizeStruct) % 2 ^ 32 < offStruct ∨
      (offStrings + sizeStrings) % 2 ^ 32 < offStrings ∨
      (offStruct + sizeStruct) % 2 ^ 32 > totalsize ∨
      (offStrings + sizeStrings) % 2 ^ 32 > totalsize then .error (.status .badStruct)
  else .ok ⟨blob, totalsize, offStruct, sizeStruct, offStrings, sizeStrings, version⟩

def FdtHandle.structBlock (h : FdtHandle) : Bytes :=
  slice h.blob h.offStruct h.sizeStruct

def FdtHandle.stringsBlock (h : FdtHandle) : Bytes :=
  slice h.blob h.offStrings h.sizeStrings

/-! ## Lookup by path -/

def slash : UInt8 := 0x2F

def component (cur : Bytes) : Bytes := cur.takeWhile (· ≠ slash)

def afterComponent (cur : Bytes) : Bytes := (cur.drop (component cur).length).drop 1

/--
The loop of `fdt_find_node_by_path`.  `cur` is what of the path is not matched yet, `size`
the size of the block.
-/
def findLoop (size : Nat) : Nat → Bytes → Bytes → Nat → Nat → Outcome Nat
  | 0, _, _, _, _ => .error .stuck
  | fuel + 1, p, cur, depth, matchedDepth =>
    if p.length < 4 then .error (.status .badStruct)
    else do
      let tok ← readBe32 p
      let nodeOffset := size - p.length
      let p := p.drop 4
      if tok = fdtBeginNode then
        let next ← skipName p
        if depth + 1 = matchedDepth + 1 ∧ cur ≠ [] then
          let name ← cString p
          if name = component cur then
            let cur := afterComponent cur
            if cur = [] then .ok nodeOffset
            else findLoop size fuel next cur (depth + 1) (matchedDepth + 1)
          else findLoop size fuel next cur (depth + 1) matchedDepth
        else findLoop size fuel next cur (depth + 1) matchedDepth
      else if tok = fdtEndNode then
        if depth = 0 then .error (.status .notFound)
        -- `cur` stays where it is
        else if depth = matchedDepth then
          findLoop size fuel p cur (depth - 1) (matchedDepth - 1)
        else findLoop size fuel p cur (depth - 1) matchedDepth
      else if tok = fdtProp then
        if p.length < 8 then .error (.status .badStruct)
        else do
          let len ← readBe32 p
          let next ← skipValue (p.drop 8) len
          findLoop size fuel next cur depth matchedDepth
      else if tok = fdtNop then findLoop size fuel p cur depth matchedDepth
      else if tok = fdtEnd then .error (.status .notFound)
      else .error (.status .badStruct)

def findIn (block path : Bytes) : Outcome Nat :=
  if path.head? ≠ some slash then .error (.status .invalid)
  else if block.length < 4 then .error (.status .badStruct)
  else do
    let tok ← readBe32 block
    if tok ≠ fdtBeginNode then .error (.status .badStruct)
    else do
      let p ← skipName (block.drop 4)
      let cur := path.drop 1
      if cur = [] then .ok 0
      else findLoop block.length (block.length + 1) p cur 0 0

def fdtFindNodeByPath (h : FdtHandle) (path : Bytes) : Outcome Nat :=
  findIn h.structBlock path

/-! ## Properties -/

/-- The loop of `fdt_get_property`; the result is where the value is, and its length. -/
def propLoop (size : Nat) (strings propName : Bytes) : Nat → Bytes → Outcome (Nat × Nat)
  | 0, _ => .error .stuck
  | fuel + 1, p =>
    if p.length < 4 then .error (.status .badStruct)
    else do
      let tok ← readBe32 p
      let p := p.drop 4
      if tok = fdtProp then
        if p.length < 8 then .error (.status .badStruct)
        else do
          let len ← readBe32 p
          let nameoff ← readBe32 (p.drop 4)
          let p := p.drop 8
          if nameoff ≥ strings.length then .error (.status .badStruct)
          else do
            let isMatch ← boundedStrMatch (strings.drop nameoff) propName
            let next ← skipValue p len
            if isMatch then .ok (size - p.length, len)
            else propLoop size strings propName fuel next
      else if tok = fdtNop then propLoop size strings propName fuel p
      else if tok = fdtBeginNode ∨ tok = fdtEndNode ∨ tok = fdtEnd then
        .error (.status .notFound)
      else .error (.status .badStruct)

def propIn (block strings : Bytes) (nodeOffset : Nat) (propName : Bytes) : Outcome (Nat × Nat) :=
  if nodeOffset > block.length then .error (.status .invalid)
  else
    let p := block.drop nodeOffset
    if p.length < 4 then .error (.status .badStruct)
    else do
      let tok ← readBe32 p
      if tok ≠ fdtBeginNode then .error (.status .badStruct)
      else do
        let p ← skipName (p.drop 4)
        propLoop block.length strings propName (block.length + 1) p

def fdtGetProperty (h : FdtHandle) (nodeOffset : Nat) (propName : Bytes) : Outcome (Nat × Nat) :=
  propIn h.structBlock h.stringsBlock nodeOffset propName

def fdtGetPropertyByPath (h : FdtHandle) (nodePath propName : Bytes) : Outcome (Nat × Nat) := do
  let nodeOff ← fdtFindNodeByPath h nodePath
  fdtGetProperty h nodeOff propName

def fdtGetU32 (h : FdtHandle) (nodePath propName : Bytes) : Outcome Nat := do
  let (data, len) ← fdtGetPropertyByPath h nodePath propName
  if len ≠ 4 then .error (.status .badStruct)
  else readBe32 (h.structBlock.drop data)

end SlmOs.Fdt
