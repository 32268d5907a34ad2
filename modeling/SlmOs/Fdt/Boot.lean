import SlmOs.Fdt.Exact

/-!
# The hardware description at boot

`kernel/src/dtb.c`: one walk over the structure block fills in the description of the
machine, starting from the defaults of the platform.
-/

namespace SlmOs.Fdt

open Foundation List Token Nat

def ascii (text : String) : Bytes := text.toUTF8.toList

/-- The constants of `platform.h`. -/
structure Platform where
  ramBase : Nat
  ramSize : Nat
  uartBase : Nat
  uartIrq : Nat
  gicDistBase : Nat
  gicCpuBase : Nat
  cpuMax : Nat
  timerIrq : Nat
  deriving DecidableEq, Repr

structure FdtInfo where
  ramBase : Nat
  ramSize : Nat
  uartBase : Nat
  uartIrq : Nat
  gicDistBase : Nat
  gicCpuBase : Nat
  cpuCount : Nat
  timerIrq : Nat
  valid : Bool
  deriving DecidableEq, Repr

/-- The parser, with the local variables of `fdt_walk_tree`. -/
structure Parser where
  pos : Nat
  depth : Int
  addressCells : Nat
  sizeCells : Nat
  currentNode : Bytes
  targetDepth : Int
  deriving DecidableEq, Repr

def Parser.init : Parser := ⟨0, 0, 2, 1, [], 0⟩

def fdtStrstart (s start : Bytes) : Bool := start.isPrefixOf s

/-! ## Cells -/

def fdtReadCell32 (data : Bytes) (index : Nat) : Outcome Nat :=
  readBe32 (data.drop (4 * index))

def fdtReadCell64 (data : Bytes) (index : Nat) : Outcome Nat := do
  let high ← fdtReadCell32 data index
  let low ← fdtReadCell32 data (index + 1)
  .ok (high * 2 ^ 32 + low)

def holdsCells (len cells : Nat) : Bool := len ≥ cells % 2 ^ 32 * 4 % 2 ^ 32

/-! ## `extract_property` -/

def extractMemory (p : Parser) (propName data : Bytes) (len : Nat) (info : FdtInfo) :
    Outcome FdtInfo :=
  if propName = ascii "reg" then do
    let base ←
      if p.addressCells = 2 ∧ len ≥ 8 then fdtReadCell64 data 0
      else if p.addressCells = 1 ∧ len ≥ 4 then fdtReadCell32 data 0
      else .ok info.ramBase
    let size ←
      if p.sizeCells = 2 ∧ holdsCells len (p.addressCells + 2) then
        fdtReadCell64 data p.addressCells
      else if p.sizeCells = 1 ∧ holdsCells len (p.addressCells + 1) then
        fdtReadCell32 data p.addressCells
      else .ok info.ramSize
    .ok { info with ramBase := base, ramSize := size }
  else .ok info

def extractUart (p : Parser) (propName data : Bytes) (len : Nat) (info : FdtInfo) :
    Outcome FdtInfo :=
  if propName = ascii "reg" ∧ len ≥ 8 then do
    let base ← if p.addressCells = 2 then fdtReadCell64 data 0 else fdtReadCell32 data 0
    .ok { info with uartBase := base }
  else if propName = ascii "interrupts" ∧ len ≥ 12 then do
    let irq ← fdtReadCell32 data 1
    .ok { info with uartIrq := (irq + 32) % 2 ^ 32 }
  else .ok info

def extractGic (p : Parser) (propName data : Bytes) (len : Nat) (info : FdtInfo) :
    Outcome FdtInfo :=
  if propName = ascii "reg" ∧ len ≥ 16 then
    let cpuOffset := (p.addressCells + p.sizeCells) % 2 ^ 32
    if p.addressCells = 2 then do
      let dist ← fdtReadCell64 data 0
      let cpu ←
        if holdsCells len (cpuOffset + 2) then fdtReadCell64 data cpuOffset
        else .ok info.gicCpuBase
      .ok { info with gicDistBase := dist, gicCpuBase := cpu }
    else do
      let dist ← fdtReadCell32 data 0
      let cpu ←
        if holdsCells len (cpuOffset + 1) then fdtReadCell32 data cpuOffset
        else .ok info.gicCpuBase
      .ok { info with gicDistBase := dist, gicCpuBase := cpu }
  else .ok info

def extractTimer (propName data : Bytes) (len : Nat) (info : FdtInfo) : Outcome FdtInfo :=
  if propName = ascii "interrupts" ∧ len ≥ 12 then do
    let irq ← if len ≥ 36 then fdtReadCell32 data 7 else fdtReadCell32 data 1
    .ok { info with timerIrq := irq }
  else .ok info

def extractProperty (p : Parser) (propName data : Bytes) (len : Nat) (info : FdtInfo) :
    Outcome FdtInfo := do
  let node := p.currentNode
  let info ←
    if fdtStrstart node (ascii "memory") then extractMemory p propName data len info
    else .ok info
  let info ←
    if fdtStrstart node (ascii "pl011") ∨ fdtStrstart node (ascii "uart") ∨
        fdtStrstart node (ascii "serial") then extractUart p propName data len info
    else .ok info
  let info ←
    if fdtStrstart node (ascii "intc") ∨ fdtStrstart node (ascii "gic") ∨
        fdtStrstart node (ascii "interrupt-controller") then
      extractGic p propName data len info
    else .ok info
  if fdtStrstart node (ascii "timer") then extractTimer propName data len info
  else .ok info

/-! ## `fdt_walk_tree` -/

def fdtToken (block : Bytes) (pos : Nat) : Outcome Nat :=
  if pos + 4 > block.length then .ok fdtEnd else readBe32 (block.drop pos)

/-- The token BEGIN_NODE: remember a child of the root, or count a CPU. -/
def walkBegin (block : Bytes) (p : Parser) (info : FdtInfo) : Outcome (Parser × FdtInfo) := do
  let pos := (p.pos + 4) % 2 ^ 32
  let name ← cString (block.drop pos)
  let next := align4 ((pos + name.length + 1) % 2 ^ 32)
  if p.depth = 0 ∧ name ≠ [] then
    .ok ⟨{ p with
      pos := next
      depth := p.depth + 1
      currentNode := name.take 63
      targetDepth := 1 }, info⟩
  else if p.depth = 1 ∧ p.currentNode = ascii "cpus" ∧ fdtStrstart name (ascii "cpu@") then
    .ok ({ p with pos := next, depth := p.depth + 1 },
      { info with cpuCount := (info.cpuCount + 1) % 2 ^ 32 })
  else .ok ({ p with pos := next, depth := p.depth + 1 }, info)

def followCells (p : Parser) (propName data : Bytes) (len : Nat) : Outcome Parser :=
  if propName = ascii "#address-cells" ∧ len = 4 then
    (fdtReadCell32 data 0).map fun cells => { p with addressCells := cells }
  else if propName = ascii "#size-cells" ∧ len = 4 then
    (fdtReadCell32 data 0).map fun cells => { p with sizeCells := cells }
  else .ok p

/-- The token PROP: the property is handed on from the level behind `target_depth`. -/
def walkProp (block strings : Bytes) (p : Parser) (info : FdtInfo) :
    Outcome (Parser × FdtInfo) := do
  let pos := (p.pos + 4) % 2 ^ 32
  let len ← readBe32 (block.drop pos)
  let nameoff ← readBe32 (block.drop (pos + 4))
  let pos := (pos + 8) % 2 ^ 32
  let data := block.drop pos
  let propName ← cString (strings.drop nameoff)
  let p ← followCells p propName data len
  let info ←
    if p.depth = p.targetDepth + 1 then extractProperty p propName data len info
    else .ok info
  .ok ({ p with pos := align4 ((pos + len) % 2 ^ 32) }, info)

def walkLoop (block strings : Bytes) : Nat → Parser → FdtInfo → Outcome FdtInfo
  | 0, _, _ => .error .stuck
  | fuel + 1, p, info =>
    if p.pos ≥ block.length then .ok info
    else do
      let tok ← fdtToken block p.pos
      if tok = fdtBeginNode then do
        let (p, info) ← walkBegin block p info
        walkLoop block strings fuel p info
      else if tok = fdtEndNode then
        let depth := p.depth - 1
        walkLoop block strings fuel
          { p with
            pos := (p.pos + 4) % 2 ^ 32
            depth := depth
            currentNode := if depth = 0 then [] else p.currentNode } info
      else if tok = fdtProp then do
        let (p, info) ← walkProp block strings p info
        walkLoop block strings fuel p info
      else if tok = fdtNop then
        walkLoop block strings fuel { p with pos := (p.pos + 4) % 2 ^ 32 } info
      else .ok info

/-! ## `dtb_parse` -/

/-- `dtb_validate`; the status is that of the library with the same meaning. -/
def dtbValidate (blob : Nat → UInt8) : Outcome Unit :=
  let off := headerField blob 2
  let size := headerField blob 9
  if headerField blob 0 ≠ fdtMagic then .error (.status .badMagic)
  else if headerField blob 5 < fdtVersion then .error (.status .badVersion)
  else if (off + size) % 2 ^ 32 < off ∨ (off + size) % 2 ^ 32 > headerField blob 1 then
    .error (.status .badStruct)
  else .ok ()

def dtbStruct (blob : Nat → UInt8) : Bytes :=
  slice blob (headerField blob 2) (headerField blob 9)

def dtbStrings (blob : Nat → UInt8) : Bytes :=
  slice blob (headerField blob 3) (headerField blob 8)

def Platform.info (c : Platform) (cpuCount : Nat) (valid : Bool) : FdtInfo :=
  ⟨c.ramBase, c.ramSize, c.uartBase, c.uartIrq, c.gicDistBase, c.gicCpuBase, cpuCount,
    c.timerIrq, valid⟩

/-- `dtb_parse` of a blob that is not NULL: what it writes to `info`, and how it ends. -/
def dtbParse (c : Platform) (blob : Nat → UInt8) : FdtInfo × Outcome Unit :=
  match dtbValidate blob with
  | .error e => (c.info c.cpuMax false, .error e)
  | .ok () =>
    let block := dtbStruct blob
    match walkLoop block (dtbStrings blob) (block.length + 1) .init (c.info 0 false) with
    | .error e => (c.info 0 false, .error e)
    | .ok info =>
      let cpuCount := if info.cpuCount = 0 then c.cpuMax else info.cpuCount
      ({ info with cpuCount := cpuCount, valid := true }, .ok ())

/-! ## The walk over a tree -/

def quiet : Nat → List Token → Prop
  | _, [] => True
  | depth, .beginNode name :: ts => (depth = 0 → name = []) ∧ quiet (depth + 1) ts
  | depth, .endNode :: ts => depth ≠ 0 ∧ quiet (depth - 1) ts
  | depth, .prop _ :: ts => quiet depth ts
  | depth, .nop :: ts => quiet depth ts
  | _, .fin :: _ => True

theorem quiet_filter : quiet depth (ts.filter Token.counts) ↔ quiet depth ts := by
  induction ts generalizing depth with
  | nil => rfl
  | cons tok ts ih =>
    cases tok with
    | nop | prop p => exact ih
    | fin => rfl
    | beginNode name | endNode =>
      rw [filter_cons_of_pos rfl, quiet, quiet, ih]

theorem quiet_props (depth : Nat) (props : List Property) (rest : List Token) :
    quiet depth (props.map .prop ++ rest) ↔ quiet depth rest := by
  induction props with
  | nil => rfl
  | cons p props ih => exact ih

theorem quiet_forest (hdepth : depth ≠ 0) (f : Forest) (rest : List Token) :
    quiet depth (f.tokens ++ rest) ↔ quiet depth rest := by
  induction f generalizing depth rest with
  | nil => rfl
  | node name props children next ihc ihn =>
    rw [Forest.tokens, cons_append, quiet, append_assoc, quiet_props,
      append_assoc, ihc (by omega : depth + 1 ≠ 0), cons_append, quiet,
      Nat.add_sub_cancel, ihn hdepth]
    exact ⟨fun h => h.2.2, fun h => ⟨fun h0 => absurd h0 hdepth, succ_ne_zero _, h⟩⟩

theorem Document.quiet (h : Document t ts strings) (hroot : t.name = []) : quiet 0 ts := by
  rw [← quiet_filter, h.tokens, Tree.tokens, Fdt.quiet, quiet_props, quiet_forest (succ_ne_zero 0)]
  exact ⟨fun _ => hroot, succ_ne_zero 0, trivial⟩

theorem fdtStrstart_nil (h : s ≠ []) : fdtStrstart [] s = false := by
  cases s with
  | nil => exact absurd rfl h
  | cons b s => rfl

theorem extractProperty_nil (hnode : p.currentNode = []) (propName data : Bytes) (len : Nat)
    (info : FdtInfo) : extractProperty p propName data len info = .ok info := by
  have hmemory := fdtStrstart_nil (by decide +kernel : ascii "memory" ≠ [])
  have hpl011 := fdtStrstart_nil (by decide +kernel : ascii "pl011" ≠ [])
  have huart := fdtStrstart_nil (by decide +kernel : ascii "uart" ≠ [])
  have hserial := fdtStrstart_nil (by decide +kernel : ascii "serial" ≠ [])
  have hintc := fdtStrstart_nil (by decide +kernel : ascii "intc" ≠ [])
  have hgic := fdtStrstart_nil (by decide +kernel : ascii "gic" ≠ [])
  have hcontroller := fdtStrstart_nil (by decide +kernel : ascii "interrupt-controller" ≠ [])
  have htimer := fdtStrstart_nil (by decide +kernel : ascii "timer" ≠ [])
  simp only [extractProperty, hnode, hmemory, hpl011, huart, hserial, hintc, hgic,
    hcontroller, htimer, Bool.false_eq_true, if_false, or_self, bind, Except.bind]

structure Parser.At (p : Parser) (pos depth : Nat) : Prop where
  pos : p.pos = pos
  depth : p.depth = depth
  node : p.currentNode = []
  target : p.targetDepth = 0

section Steps

variable (info : FdtInfo)

theorem align4_add (hpos : 4 ∣ pos) (h : pos + padded n < 2 ^ 32) :
    align4 ((pos + n) % 2 ^ 32) = pos + padded n := by
  unfold align4 padded at *
  omega

theorem walkBegin_quiet (hp : p.At before.length depth)
    (halign : 4 ∣ before.length) (hname : 0 ∉ name) (hquiet : depth = 0 → name = [])
    (hsize : (before ++ ((Token.beginNode name).encode ++ rest)).length < 2 ^ 32) :
    ∃ p', walkBegin (before ++ ((Token.beginNode name).encode ++ rest)) p info = .ok (p', info) ∧
      p'.At (before ++ (Token.beginNode name).encode).length (depth + 1) := by
  have hpad := padding_length (name.length + 1)
  simp only [encode, length_append, length_cons, be32_length] at hsize
  have hfour : (p.pos + 4) % 2 ^ 32 = before.length + 4 := by
    rw [hp.pos]
    omega
  have hdrop : (before ++ ((beginNode name).encode ++ rest)).drop
      (before.length + 4) = name ++ 0 :: (padding (name.length + 1) ++ rest) := by
    rw [← drop_drop, drop_left, encode, append_assoc, drop_be32, append_assoc, cons_append]
  have hnext : align4 ((before.length + 4 + name.length + 1) % 2 ^ 32) =
      before.length + 4 + padded (name.length + 1) :=
    align4_add (n := name.length + 1) (by omega) (by omega)
  have hcpus : ([] : Bytes) ≠ ascii "cpus" := by decide +kernel
  have hroot : ¬ (p.depth = 0 ∧ name ≠ []) := by
    rintro ⟨hzero, hne⟩
    rw [hp.depth] at hzero
    exact hne (hquiet (by exact_mod_cast hzero))
  have hlen : (before ++ (beginNode name).encode).length =
      before.length + 4 + padded (name.length + 1) := by
    simp only [encode, length_append, length_cons, be32_length]
    omega
  refine ⟨{ p with
    pos := before.length + 4 + padded (name.length + 1)
    depth := p.depth + 1 }, ?_, ?_⟩
  · unfold walkBegin
    simp only [hfour, hdrop, cString_name hname, bind, Except.bind, hnext]
    rw [if_neg hroot, if_neg fun h => hcpus (hp.node.symm.trans h.2.1)]
  rw [hlen]
  refine ⟨rfl, ?_, hp.node, hp.target⟩
  rw [hp.depth]
  rfl

theorem followCells_ok (p : Parser) (propName value rest : Bytes) :
    ∃ p', followCells p propName (value ++ rest) value.length = .ok p' ∧
      p'.depth = p.depth ∧ p'.currentNode = p.currentNode ∧
      p'.targetDepth = p.targetDepth := by
  have hread : value.length = 4 → ∃ n, fdtReadCell32 (value ++ rest) 0 = .ok n := by
    intro hfour
    apply readBe32_of_le
    simp only [length_drop, length_append]
    omega
  unfold followCells
  split
  · rename_i h
    obtain ⟨n, hn⟩ := hread h.2
    exact ⟨{ p with addressCells := n }, by rw [hn]; rfl, rfl, rfl, rfl⟩
  split
  · rename_i h
    obtain ⟨n, hn⟩ := hread h.2
    exact ⟨{ p with sizeCells := n }, by rw [hn]; rfl, rfl, rfl, rfl⟩
  · exact ⟨p, rfl, rfl, rfl, rfl⟩

theorem walkProp_quiet (hp : p.At before.length depth) (halign : 4 ∣ before.length)
    (hnamed : q.NamedIn strings) (hstrings : strings.length < 2 ^ 32)
    (hsize : (before ++ ((Token.prop q).encode ++ rest)).length < 2 ^ 32) :
    ∃ p', walkProp (before ++ ((Token.prop q).encode ++ rest)) strings p info = .ok (p', info) ∧
      p'.At (before ++ (Token.prop q).encode).length depth := by
  have hpad := padding_length q.value.length
  have hoff := hnamed.nameoff_lt.trans hstrings
  obtain ⟨hzero, tail, hname⟩ := hnamed
  simp only [encode, length_append, be32_length] at hsize
  have hfour : (p.pos + 4) % 2 ^ 32 = before.length + 4 := by
    rw [hp.pos]
    omega
  have hlen : q.value.length < 2 ^ 32 := by omega
  have hdrop₄ : (before ++ ((prop q).encode ++ rest)).drop (before.length + 4) =
      be32 q.value.length ++ (be32 q.nameoff ++ (q.value ++ (padding q.value.length ++ rest))) := by
    rw [← drop_drop, drop_left, encode]
    simp only [append_assoc, drop_be32]
  have hdrop₈ : (before ++ ((prop q).encode ++ rest)).drop (before.length + 4 + 4) =
      be32 q.nameoff ++ (q.value ++ (padding q.value.length ++ rest)) := by
    rw [← drop_drop, hdrop₄, drop_be32]
  have hdrop₁₂ : (before ++ ((prop q).encode ++ rest)).drop
      (before.length + 4 + 8) = q.value ++ (padding q.value.length ++ rest) := by
    rw [show before.length + 4 + 8 = before.length + 4 + 4 + 4 by omega, ← drop_drop,
      hdrop₈, drop_be32]
  have height : (before.length + 4 + 8) % 2 ^ 32 = before.length + 4 + 8 := by omega
  have hnext : align4 ((before.length + 4 + 8 + q.value.length) % 2 ^ 32) =
      before.length + 4 + 8 + padded q.value.length :=
    align4_add (by omega) (by omega)
  have hend : (before ++ (prop q).encode).length =
      before.length + 4 + 8 + padded q.value.length := by
    simp only [encode, length_append, be32_length]
    omega
  obtain ⟨p', hcells, hdepth, hnode, htarget⟩ :=
    followCells_ok p q.name q.value (padding q.value.length ++ rest)
  refine ⟨{ p' with pos := before.length + 4 + 8 + padded q.value.length }, ?_, ?_⟩
  · unfold walkProp
    simp only [hfour, hdrop₄, hdrop₈, height, hdrop₁₂, readBe32_be32 hlen,
      readBe32_be32 hoff, hname, cString_name hzero, bind, Except.bind, hnext, hcells]
    rw [extractProperty_nil (hnode.trans hp.node), ite_self]
  rw [hend]
  exact ⟨rfl, hdepth.trans hp.depth, hnode.trans hp.node, htarget.trans hp.target⟩

theorem fdtToken_encode {before rest : Bytes} {tok : Token} {n : Nat} {tail : Bytes}
    (htok : tok.encode ++ rest = be32 n ++ tail) (hn : n < 2 ^ 32) :
    fdtToken (before ++ (tok.encode ++ rest)) before.length = .ok n := by
  unfold fdtToken
  rw [if_neg, drop_left, htok, readBe32_be32 hn]
  rw [htok]
  simp

end Steps

theorem walkLoop_quiet (before : Bytes) (info : FdtInfo) (hblock : block = before ++ encodeAll ts)
    (hp : p.At before.length depth) (halign : 4 ∣ before.length)
    (hquiet : quiet depth ts) (hnames : ∀ name, .beginNode name ∈ ts → 0 ∉ name)
    (hprops : ∀ q, .prop q ∈ ts → q.NamedIn strings) (hstrings : strings.length < 2 ^ 32)
    (hsize : block.length < 2 ^ 32) (hfuel : ts.length < fuel) :
    walkLoop block strings fuel p info = .ok info := by
  induction ts generalizing before p depth fuel with
  | nil =>
    obtain ⟨fuel, rfl⟩ := Nat.exists_eq_add_one_of_ne_zero (Nat.ne_zero_of_lt hfuel)
    rw [walkLoop, if_pos]
    rw [hp.pos, hblock]
    simp [encodeAll]
  | cons tok ts ih =>
    obtain ⟨fuel, rfl⟩ := Nat.exists_eq_add_one_of_ne_zero (Nat.ne_zero_of_lt hfuel)
    have hfuel' : ts.length < fuel := Nat.lt_of_succ_lt_succ hfuel
    have hlong := tok.encode_length
    have hblock' : block = (before ++ tok.encode) ++ encodeAll ts := by
      rw [hblock, encodeAll_cons, append_assoc]
    have hfour : (p.pos + 4) % 2 ^ 32 = before.length + 4 := by
      rw [hblock', length_append, length_append] at hsize
      rw [hp.pos]
      omega
    have hlen : (before ++ tok.encode).length = before.length + tok.encode.length := length_append
    have hstep : ∀ p' d, p'.At (before ++ tok.encode).length d → quiet d ts →
        walkLoop block strings fuel p' info = .ok info := fun p' d hp' hq =>
      ih _ hblock' hp' (by omega) hq (fun n hn => hnames n (mem_cons_of_mem _ hn))
        (fun q hq => hprops q (mem_cons_of_mem _ hq)) hfuel'
    rw [encodeAll_cons] at hblock
    have hlt : ¬ p.pos ≥ block.length := by
      rw [hp.pos, hblock, length_append, length_append]
      omega
    rw [walkLoop, if_neg hlt, hp.pos]
    cases tok with
    | beginNode name =>
      obtain ⟨p', hbegin, hp'⟩ := walkBegin_quiet info hp halign
        (hnames name mem_cons_self) hquiet.1 (hblock ▸ hsize)
      rw [← hblock] at hbegin
      rw [hblock, fdtToken_encode (append_assoc ..) (by decide), ← hblock]
      simp only [bind, Except.bind, if_true, hbegin]
      exact hstep p' _ hp' hquiet.2
    | endNode =>
      rw [hblock, fdtToken_encode rfl (by decide), ← hblock]
      obtain ⟨hdepth, hrest⟩ := hquiet
      refine hstep _ (depth - 1) ⟨?_, ?_, ?_, hp.target⟩ hrest
      · rw [hlen]
        rw [hp.pos] at hfour
        exact hfour
      · dsimp only
        rw [hp.depth]
        omega
      rw [hp.node]
      exact ite_self _
    | prop q =>
      obtain ⟨p', hprop, hp'⟩ := walkProp_quiet info hp halign
        (hprops q mem_cons_self) hstrings (hblock ▸ hsize)
      rw [← hblock] at hprop
      rw [hblock, fdtToken_encode (append_assoc ..) (by decide), ← hblock]
      simp only [bind, Except.bind]
      rw [if_neg (by decide), if_neg (by decide), if_pos trivial, hprop]
      exact hstep p' _ hp' hquiet
    | nop =>
      rw [hblock, fdtToken_encode rfl (by decide), ← hblock]
      refine hstep _ depth ⟨?_, hp.depth, hp.node, hp.target⟩ hquiet
      rw [hlen]
      dsimp only
      rw [hp.pos] at hfour
      exact hfour
    | fin =>
      rw [hblock, fdtToken_encode rfl (by decide), ← hblock]
      rfl

/-! ## What the tree says -/

def Forest.siblings : Forest → List (Bytes × List Property × Forest)
  | .nil => []
  | .node name props children next => (name, props, children) :: next.siblings

def Tree.cpuNodes (t : Tree) : Nat :=
  ((t.children.siblings.filter (·.1 = ascii "cpus")).flatMap (·.2.2.siblings)).countP
    (fdtStrstart ·.1 (ascii "cpu@"))

def HasCell (props : List Property) (name : Bytes) (n : Nat) : Prop :=
  ∃ q, props.find? (·.name = name) = some q ∧ q.value.length = 4 ∧ beNat q.value = n

/--
A tree that describes a machine: the root has no name and gives the cell sizes, and there
is one memory node under it, whose `reg` has at least one pair.
-/
structure Machine (t : Tree) (addressCells sizeCells : Nat) (reg : Property) : Prop where
  root_name : t.name = []
  address_cells : HasCell t.props (ascii "#address-cells") addressCells
  size_cells : HasCell t.props (ascii "#size-cells") sizeCells
  address_le : addressCells = 1 ∨ addressCells = 2
  size_le : sizeCells = 1 ∨ sizeCells = 2
  memory : ∃ name props children,
    t.children.siblings.filter (fdtStrstart ·.1 (ascii "memory")) =
      [(name, props, children)] ∧ props.find? (·.name = ascii "reg") = some reg
  reg_size : 4 * (addressCells + sizeCells) ≤ reg.value.length

def regBase (addressCells : Nat) (reg : Property) : Nat :=
  beNat (reg.value.take (4 * addressCells))

def regSize (addressCells sizeCells : Nat) (reg : Property) : Nat :=
  beNat ((reg.value.drop (4 * addressCells)).take (4 * sizeCells))

def FdtInfo.Describes (info : FdtInfo) (c : Platform) (t : Tree)
    (addressCells sizeCells : Nat) (reg : Property) : Prop :=
  info.ramBase = regBase addressCells reg ∧ info.ramSize = regSize addressCells sizeCells reg ∧
    info.cpuCount = if t.cpuNodes = 0 then c.cpuMax else t.cpuNodes

variable {c : Platform} {blob : Nat → UInt8} {t : Tree} {ts : List Token}

theorem dtbParse_defaults (hvalid : dtbValidate blob = .ok ())
    (hblock : dtbStruct blob = encodeAll ts) (hdoc : Document t ts (dtbStrings blob))
    (hroot : t.name = []) : dtbParse c blob = (c.info c.cpuMax true, .ok ()) := by
  have hwalk : walkLoop (dtbStruct blob) (dtbStrings blob) ((dtbStruct blob).length + 1)
      .init (c.info 0 false) = .ok (c.info 0 false) := by
    have hfuel : ts.length < (dtbStruct blob).length + 1 := by
      rw [hblock]
      exact lt_succ_of_le (length_le_encodeAll ts)
    exact walkLoop_quiet [] _ hblock ⟨rfl, rfl, rfl, rfl⟩ (dvd_zero 4)
      (hdoc.quiet hroot) hdoc.names hdoc.props hdoc.strings_size (hblock ▸ hdoc.size) hfuel
  unfold dtbParse
  simp only [hvalid, hwalk]
  rfl

/--
`dtb_parse` on a tree that describes a machine: it succeeds, and the description is that of
the tree exactly if the tree says what the platform's defaults are.
-/
theorem boot_description {addressCells sizeCells : Nat} {reg : Property}
    (hvalid : dtbValidate blob = .ok ()) (hblock : dtbStruct blob = encodeAll ts)
    (hdoc : Document t ts (dtbStrings blob)) (hm : Machine t addressCells sizeCells reg) :
    (dtbParse c blob).2 = .ok () ∧ ((dtbParse c blob).1.Describes c t addressCells sizeCells reg ↔
        regBase addressCells reg = c.ramBase ∧
        regSize addressCells sizeCells reg = c.ramSize ∧
        (t.cpuNodes = 0 ∨ t.cpuNodes = c.cpuMax)) := by
  rw [dtbParse_defaults hvalid hblock hdoc hm.root_name]
  refine ⟨rfl, ?_⟩
  unfold FdtInfo.Describes Platform.info
  by_cases hcpus : t.cpuNodes = 0 <;> simp [hcpus, eq_comm]

/-! ## A machine with two CPUs and 2 GiB -/

def cellsProp (name : String) (nameoff : Nat) (cells : List Nat) : Property :=
  ⟨ascii name, nameoff, cells.flatMap be32⟩

def machineReg : Property := cellsProp "reg" 27 [0, 0x40000000, 0, 0x80000000]

def machineTree : Tree :=
  ⟨[], [cellsProp "#address-cells" 0 [2], cellsProp "#size-cells" 15 [2]],
    .node (ascii "memory@40000000") [machineReg] .nil
      (.node (ascii "cpus") []
        (.node (ascii "cpu@0") [] .nil (.node (ascii "cpu@1") [] .nil .nil)) .nil)⟩

def machineStrings : Bytes := ascii "#address-cells\x00#size-cells\x00reg\x00"

def machineBlob : Nat → UInt8 :=
  let block := encodeAll machineTree.tokens
  let bytes := be32 fdtMagic ++ be32 (71 + block.length) ++ be32 40 ++
    be32 (40 + block.length) ++ be32 0 ++ be32 17 ++ be32 16 ++ be32 0 ++ be32 31 ++
    be32 block.length ++ block ++ machineStrings
  fun i => bytes.getD i 0

theorem machine_valid : dtbValidate machineBlob = .ok () := by
  decide +kernel

theorem machine_struct : dtbStruct machineBlob = encodeAll machineTree.tokens := by
  decide +kernel

theorem machine_strings : dtbStrings machineBlob = machineStrings := by
  decide +kernel

theorem machine_document : Document machineTree machineTree.tokens (dtbStrings machineBlob) where
  tokens := by decide +kernel
  names := by
    intro name hname
    simp only [machineTree, Tree.tokens, Forest.tokens, map_cons, map_nil,
      nil_append, cons_append, mem_cons, beginNode.injEq,
      reduceCtorEq, false_or, not_mem_nil, or_false] at hname
    rcases hname with rfl | rfl | rfl | rfl | rfl <;> decide +kernel
  props := by
    intro q hq
    rw [machine_strings]
    simp only [machineTree, Tree.tokens, Forest.tokens, map_cons, map_nil,
      nil_append, cons_append, mem_cons, prop.injEq,
      reduceCtorEq, false_or, not_mem_nil, or_false] at hq
    rcases hq with rfl | rfl | rfl
    · exact ⟨by decide +kernel, machineStrings.drop 15, by decide +kernel⟩
    · exact ⟨by decide +kernel, machineStrings.drop 27, by decide +kernel⟩
    · exact ⟨by decide +kernel, machineStrings.drop 31, by decide +kernel⟩
  size := by decide +kernel
  strings_size := by decide +kernel

theorem machine_machine : Machine machineTree 2 2 machineReg where
  root_name := rfl
  address_cells := ⟨cellsProp "#address-cells" 0 [2], by decide +kernel, by decide +kernel,
      by decide +kernel⟩
  size_cells := ⟨cellsProp "#size-cells" 15 [2], by decide +kernel, by decide +kernel,
      by decide +kernel⟩
  address_le := .inr rfl
  size_le := .inr rfl
  memory := ⟨ascii "memory@40000000", [machineReg], .nil, by decide +kernel, by decide +kernel⟩
  reg_size := by decide +kernel

theorem machine_says : regBase 2 machineReg = 0x40000000 ∧
    regSize 2 2 machineReg = 0x80000000 ∧ machineTree.cpuNodes = 2 := by
  decide +kernel

theorem boot_description_default :
    (dtbParse ⟨0x40000000, 0x80000000, 0, 0, 0, 0, 2, 0⟩ machineBlob).1.Describes
      ⟨0x40000000, 0x80000000, 0, 0, 0, 0, 2, 0⟩ machineTree 2 2 machineReg := by
  have hmain := boot_description (c := ⟨0x40000000, 0x80000000, 0, 0, 0, 0, 2, 0⟩)
    machine_valid machine_struct machine_document machine_machine
  obtain ⟨hbase, hsize, hcpus⟩ := machine_says
  exact hmain.2.mpr ⟨hbase, hsize, .inr hcpus⟩

def qemu : Platform :=
  ⟨0x40000000, 0x40000000, 0x09000000, 33, 0x08000000, 0x08010000, 4, 30⟩

theorem boot_description_ignored : dtbValidate machineBlob = .ok () ∧
      dtbStruct machineBlob = encodeAll machineTree.tokens ∧
      Document machineTree machineTree.tokens (dtbStrings machineBlob) ∧
      Machine machineTree 2 2 machineReg ∧
      regSize 2 2 machineReg = 0x80000000 ∧ machineTree.cpuNodes = 2 ∧
      (dtbParse qemu machineBlob).1.ramSize = 0x40000000 ∧
      (dtbParse qemu machineBlob).1.cpuCount = 4 := by
  have hparse := dtbParse_defaults (c := qemu) machine_valid machine_struct machine_document rfl
  rw [hparse]
  exact ⟨machine_valid, machine_struct, machine_document, machine_machine,
    machine_says.2.1, machine_says.2.2, rfl, rfl⟩

/-! ## Reads outside the blob -/

end SlmOs.Fdt
