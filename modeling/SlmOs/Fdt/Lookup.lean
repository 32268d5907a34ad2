import SlmOs.Fdt.Reader

/-!
# What a lookup finds

The scan over the bytes of a document is a scan over its tokens, the NOP tokens do not
matter to it, and over the tokens of a tree it is a walk over the tree.
-/

namespace SlmOs.Fdt

open Foundation Forest List Token

/-! ## Reading what was written -/

theorem readBe32_be32 (h : n < 2 ^ 32) (rest : Bytes) : readBe32 (be32 n ++ rest) = .ok n := by
  unfold readBe32
  rw [if_pos (by simp), take_left' (be32_length n), beNat_be32 h]

variable {name : Bytes}

@[simp] theorem drop_be32 (n : Nat) (rest : Bytes) : (be32 n ++ rest).drop 4 = rest :=
  drop_left' (be32_length n)

section

variable (h : 0 ∉ name)
include h

theorem takeWhile_name (rest : Bytes) : (name ++ 0 :: rest).takeWhile (· ≠ 0) = name := by
  rw [takeWhile_append_of_pos]
  · simp
  intro b hb
  simpa using fun heq : b = 0 => h (heq ▸ hb)

theorem boundedStrlen_name (rest : Bytes) :
    boundedStrlen (name ++ 0 :: rest) = some name.length := by
  unfold boundedStrlen
  rw [takeWhile_name h]
  simp

theorem cString_name (rest : Bytes) : cString (name ++ 0 :: rest) = .ok name := by
  unfold cString
  rw [takeWhile_name h]
  simp

theorem skipName_name (hsize : padded (name.length + 1) < 2 ^ 32) (rest : Bytes) :
    skipName (name ++ 0 :: padding (name.length + 1) ++ rest) = .ok rest := by
  have hpad := padding_length (name.length + 1)
  have hlt : name.length + 1 < 2 ^ 32 := by omega
  have hlen : (name ++ 0 :: padding (name.length + 1)).length = padded (name.length + 1) := by
    simp only [length_append, length_cons]
    omega
  unfold skipName
  rw [append_assoc, cons_append, boundedStrlen_name h]
  simp only [Nat.mod_eq_of_lt hlt, align4_eq hsize]
  rw [← cons_append, ← append_assoc, if_neg, drop_left' hlen]
  rw [length_append, hlen]
  omega

end

theorem skipValue_value (hsize : padded value.length < 2 ^ 32) (rest : Bytes) :
    skipValue (value ++ padding value.length ++ rest) value.length = .ok rest := by
  have hlen : (value ++ padding value.length).length = padded value.length := by
    rw [length_append]
    exact padding_length _
  have hle : value.length ≤ padded value.length := Nat.le_add_right _ _
  unfold skipValue
  simp only [align4_eq hsize]
  rw [if_neg, drop_left' hlen]
  rw [length_append, hlen]
  omega

/-! ## From bytes to tokens -/

def joinPath : List Bytes → Bytes
  | [] => []
  | [c] => c
  | c :: c' :: cs => c ++ slash :: joinPath (c' :: cs)

def absolutePath (cs : List Bytes) : Bytes := slash :: joinPath cs

def Components (cs : List Bytes) : Prop := ∀ c ∈ cs, c ≠ [] ∧ slash ∉ c ∧ 0 ∉ c

theorem joinPath_ne_nil (h : Components cs) (hne : cs ≠ []) : joinPath cs ≠ [] := by
  cases cs with
  | nil => exact absurd rfl hne
  | cons c cs =>
    have hc := (h c mem_cons_self).1
    cases cs <;> simp [joinPath, hc]

variable {c : Bytes}

theorem takeWhile_component (h : slash ∉ c) : c.takeWhile (· ≠ slash) = c := by
  rw [takeWhile_eq_self_iff]
  intro b hb
  simpa using fun heq : b = slash => h (heq ▸ hb)

theorem component_joinPath (h : slash ∉ c) : component (joinPath (c :: cs)) = c := by
  unfold component
  cases cs with
  | nil => exact takeWhile_component h
  | cons c' cs =>
    rw [joinPath, takeWhile_append_of_pos]
    · simp
    intro b hb
    simpa using fun heq : b = slash => h (heq ▸ hb)

theorem afterComponent_joinPath (h : slash ∉ c) :
    afterComponent (joinPath (c :: cs)) = joinPath cs := by
  unfold afterComponent
  rw [component_joinPath h]
  cases cs with
  | nil | cons c' cs => simp [joinPath]

def Token.Readable : Token → Prop
  | .beginNode name => 0 ∉ name ∧ padded (name.length + 1) < 2 ^ 32
  | .prop p => padded p.value.length < 2 ^ 32 ∧ p.nameoff < 2 ^ 32
  | _ => True

section Steps

variable (size fuel depth matchedDepth : Nat) (cur rest : Bytes)

theorem findLoop_beginNode (h : (Token.beginNode name).Readable) :
    findLoop size (fuel + 1) ((Token.beginNode name).encode ++ rest) cur depth matchedDepth =
      if depth = matchedDepth ∧ cur ≠ [] ∧ name = component cur then
        if afterComponent cur = [] then
          .ok (size - ((Token.beginNode name).encode ++ rest).length)
        else findLoop size fuel rest (afterComponent cur) (depth + 1) (matchedDepth + 1)
      else findLoop size fuel rest cur (depth + 1) matchedDepth := by
  obtain ⟨hname, hpad⟩ := h
  rw [findLoop, if_neg (by simp [encode])]
  simp only [encode, append_assoc, cons_append, drop_be32]
  rw [readBe32_be32 (by decide)]
  simp only [bind, Except.bind, if_pos]
  have hskip := skipName_name hname hpad rest
  rw [append_assoc, cons_append] at hskip
  rw [hskip]
  simp only [Nat.add_right_cancel_iff]
  by_cases hinspect : depth = matchedDepth ∧ cur ≠ []
  · rw [if_pos hinspect, cString_name hname]
    dsimp only
    by_cases hmatch : name = component cur
    · have hall : depth = matchedDepth ∧ cur ≠ [] ∧ name = component cur :=
        ⟨hinspect.1, hinspect.2, hmatch⟩
      rw [if_pos hmatch, if_pos hall]
    · rw [if_neg hmatch, if_neg fun h => hmatch h.2.2]
  · rw [if_neg hinspect, if_neg fun h => hinspect ⟨h.1, h.2.1⟩]

theorem findLoop_endNode :
    findLoop size (fuel + 1) (Token.endNode.encode ++ rest) cur depth matchedDepth =
      if depth = 0 then .error (.status .notFound)
      else if depth = matchedDepth then
        findLoop size fuel rest cur (depth - 1) (matchedDepth - 1)
      else findLoop size fuel rest cur (depth - 1) matchedDepth := by
  rw [findLoop, if_neg (by simp [encode])]
  simp only [encode, drop_be32]
  rw [readBe32_be32 (by decide)]
  rfl

theorem drop_be32_be32 (a b : Nat) (l : Bytes) : (be32 a ++ (be32 b ++ l)).drop 8 = l := by
  rw [← drop_drop (i := 4) (j := 4), drop_be32, drop_be32]

theorem findLoop_prop (h : (Token.prop p).Readable) :
    findLoop size (fuel + 1) ((Token.prop p).encode ++ rest) cur depth matchedDepth =
      findLoop size fuel rest cur depth matchedDepth := by
  obtain ⟨hpad, hoff⟩ := h
  have hlen : p.value.length < 2 ^ 32 := (Nat.le_add_right _ _).trans_lt hpad
  rw [findLoop, if_neg (by simp [encode])]
  simp only [encode, append_assoc, drop_be32]
  rw [readBe32_be32 (by decide)]
  simp only [bind, Except.bind]
  rw [if_neg (by decide), if_neg (by decide), if_pos trivial, if_neg (by simp; omega),
    readBe32_be32 hlen]
  dsimp only
  rw [drop_be32_be32, ← append_assoc, skipValue_value hpad]

theorem findLoop_nop : findLoop size (fuel + 1) (Token.nop.encode ++ rest) cur depth matchedDepth =
      findLoop size fuel rest cur depth matchedDepth := by
  rw [findLoop, if_neg (by simp [encode])]
  simp only [encode, drop_be32]
  rw [readBe32_be32 (by decide)]
  rfl

theorem findLoop_fin : findLoop size (fuel + 1) (Token.fin.encode ++ rest) cur depth matchedDepth =
      .error (.status .notFound) := by
  rw [findLoop, if_neg (by simp [encode])]
  simp only [encode, drop_be32]
  rw [readBe32_be32 (by decide)]
  rfl

end Steps

def scan : List (Token × Nat) → List Bytes → Nat → Nat → Outcome Nat
  | [], _, _, _ => .error (.status .badStruct)
  | (.beginNode name, off) :: ts, cs, depth, matchedDepth =>
    if depth = matchedDepth ∧ cs.head? = some name then
      if cs.tail = [] then .ok off
      else scan ts cs.tail (depth + 1) (matchedDepth + 1)
    else scan ts cs (depth + 1) matchedDepth
  | (.endNode, _) :: ts, cs, depth, matchedDepth =>
    if depth = 0 then .error (.status .notFound)
    else if depth = matchedDepth then scan ts cs (depth - 1) (matchedDepth - 1)
    else scan ts cs (depth - 1) matchedDepth
  | (.prop _, _) :: ts, cs, depth, matchedDepth => scan ts cs depth matchedDepth
  | (.nop, _) :: ts, cs, depth, matchedDepth => scan ts cs depth matchedDepth
  | (.fin, _) :: _, _, _, _ => .error (.status .notFound)

variable {cs : List Bytes}

theorem findLoop_eq_scan (hts : ∀ t ∈ ts, t.Readable) (hcs : Components cs)
    (hne : cs ≠ []) (hfuel : ts.length < fuel) (hsize : (encodeAll ts).length ≤ size) :
    findLoop size fuel (encodeAll ts) (joinPath cs) depth matchedDepth =
      scan (label (size - (encodeAll ts).length) ts) cs depth matchedDepth := by
  induction ts generalizing fuel cs depth matchedDepth with
  | nil =>
    obtain ⟨fuel, rfl⟩ := Nat.exists_eq_add_one_of_ne_zero (Nat.ne_zero_of_lt hfuel)
    rfl
  | cons t ts ih =>
    obtain ⟨fuel, rfl⟩ := Nat.exists_eq_add_one_of_ne_zero (Nat.ne_zero_of_lt hfuel)
    have hfuel' : ts.length < fuel := Nat.lt_of_succ_lt_succ hfuel
    have hlen : (encodeAll (t :: ts)).length = t.encode.length + (encodeAll ts).length := by
      rw [encodeAll_cons, length_append]
    have hoff : size - (encodeAll (t :: ts)).length + t.encode.length =
        size - (encodeAll ts).length := by omega
    have hrest := fun t' ht' => hts t' (mem_cons_of_mem _ ht')
    have hread := hts t mem_cons_self
    have ih' : ∀ cs, Components cs → cs ≠ [] → ∀ d m,
        findLoop size fuel (encodeAll ts) (joinPath cs) d m =
          scan (label (size - (encodeAll ts).length) ts) cs d m :=
      fun cs hcs hne d m => ih hrest hcs hne hfuel' (by omega)
    rw [label, hoff]
    cases t with
    | beginNode name =>
      rw [encodeAll_cons, findLoop_beginNode _ _ _ _ _ _ hread, scan]
      obtain ⟨c, cs, rfl⟩ := exists_cons_of_ne_nil hne
      have hc := hcs c mem_cons_self
      have hcs' : Components cs := fun c' h' => hcs c' (mem_cons_of_mem _ h')
      rw [component_joinPath hc.2.1, afterComponent_joinPath hc.2.1]
      simp only [head?_cons, tail_cons, Option.some.injEq,
        joinPath_ne_nil hcs hne, ne_eq, not_false_eq_true, true_and,
        eq_comm (a := name)]
      split
      · rcases cs with _ | ⟨c', cs⟩
        · rfl
        · simp only [joinPath_ne_nil hcs' (cons_ne_nil c' cs), reduceIte, reduceCtorEq]
          exact ih' _ hcs' (cons_ne_nil c' cs) _ _
      · exact ih' _ hcs hne _ _
    | endNode =>
      rw [encodeAll_cons, findLoop_endNode, scan]
      simp only [ih' cs hcs hne]
    | prop p =>
      rw [encodeAll_cons, findLoop_prop _ _ _ _ _ _ hread, scan]
      exact ih' cs hcs hne _ _
    | nop =>
      rw [encodeAll_cons, findLoop_nop, scan]
      exact ih' cs hcs hne _ _
    | fin => rw [encodeAll_cons, findLoop_fin, scan]

/-! ## NOP tokens -/

section

variable (ts : List (Token × Nat))

theorem scan_filter (cs : List Bytes) (depth matchedDepth : Nat) :
    scan (ts.filter (·.1.counts)) cs depth matchedDepth = scan ts cs depth matchedDepth := by
  induction ts generalizing cs depth matchedDepth with
  | nil => rfl
  | cons t ts ih =>
    obtain ⟨t, off⟩ := t
    cases t with
    | nop | prop p => exact ih cs depth matchedDepth
    | fin => rfl
    | beginNode name | endNode =>
      rw [filter_cons_of_pos rfl, scan, scan]
      simp only [ih]

theorem begins_filter : begins (ts.filter (·.1.counts)) = begins ts := by
  induction ts with
  | nil => rfl
  | cons t ts ih =>
    obtain ⟨t, off⟩ := t
    cases t with
    | beginNode name => exact congrArg (off :: ·) ih
    | endNode | prop _ | nop | fin => exact ih

theorem filter_map_fst :
    (ts.filter (·.1.counts)).map Prod.fst = (ts.map Prod.fst).filter Token.counts := by
  rw [filter_map]
  rfl

end

/-! ## Labelled trees -/

@[simp] theorem begins_append (ts ts' : List (Token × Nat)) :
    begins (ts ++ ts') = begins ts ++ begins ts' := by
  induction ts with
  | nil => rfl
  | cons t ts ih =>
    obtain ⟨t, off⟩ := t
    cases t <;> simp [begins, ih]

inductive Labels : Forest → List (Token × Nat) → Prop
  | nil : Labels .nil []
  | node {name : Bytes} {props : List Property} {children next : Forest} {off stop : Nat}
      {ps cs ns : List (Token × Nat)} (hps : ps.map Prod.fst = props.map .prop)
      (hcs : Labels children cs) (hns : Labels next ns) :
      Labels (.node name props children next)
        ((.beginNode name, off) :: (ps ++ (cs ++ (.endNode, stop) :: ns)))

variable {f : Forest} {ts : List (Token × Nat)}

theorem labels_of_map (h : ts.map Prod.fst = f.tokens) : Labels f ts := by
  induction f generalizing ts with
  | nil =>
    rw [tokens, map_eq_nil_iff] at h
    rw [h]
    exact .nil
  | node name props children next ihc ihn =>
    rw [tokens, map_eq_cons_iff] at h
    obtain ⟨⟨t, off⟩, ts, rfl, rfl, h⟩ := h
    obtain ⟨ps, ts, rfl, hps, h⟩ := map_eq_append_iff.mp h
    obtain ⟨cs, ts, rfl, hcs, h⟩ := map_eq_append_iff.mp h
    obtain ⟨⟨t, stop⟩, ns, rfl, rfl, hns⟩ := map_eq_cons_iff.mp h
    exact .node hps (ihc hcs) (ihn hns)

theorem begins_props {ps : List (Token × Nat)} {props : List Property}
    (h : ps.map Prod.fst = props.map .prop) : begins ps = [] := by
  induction props generalizing ps with
  | nil =>
    rw [map_nil, map_eq_nil_iff] at h
    rw [h]
    rfl
  | cons p props ih =>
    rw [map_cons, map_eq_cons_iff] at h
    obtain ⟨⟨t, off⟩, ps, rfl, rfl, h⟩ := h
    rw [begins]
    · exact ih h
    · simp

theorem scan_props {ps : List (Token × Nat)} {props : List Property}
    (h : ps.map Prod.fst = props.map .prop) (ts : List (Token × Nat)) (cs : List Bytes)
    (depth matchedDepth : Nat) :
    scan (ps ++ ts) cs depth matchedDepth = scan ts cs depth matchedDepth := by
  induction props generalizing ps with
  | nil =>
    rw [map_nil, map_eq_nil_iff] at h
    rw [h, nil_append]
  | cons p props ih =>
    rw [map_cons, map_eq_cons_iff] at h
    obtain ⟨⟨t, off⟩, ps, rfl, rfl, h⟩ := h
    rw [cons_append, scan]
    exact ih h

theorem scan_enter (off : Nat) (name : Bytes) (ts : List (Token × Nat)) (cs : List Bytes)
    (depth : Nat) :
    scan ((.beginNode name, off) :: ts) (name :: cs) depth depth =
      if cs = [] then .ok off else scan ts cs (depth + 1) (depth + 1) := by
  rw [scan, if_pos (⟨rfl, rfl⟩ : depth = depth ∧ (name :: cs).head? = some name)]
  rfl

theorem scan_pass (h : depth = matchedDepth → cs.head? ≠ some name) (off : Nat)
    (ts : List (Token × Nat)) :
    scan ((.beginNode name, off) :: ts) cs depth matchedDepth =
      scan ts cs (depth + 1) matchedDepth := by
  rw [scan, if_neg fun hboth => h hboth.1 hboth.2]

theorem scan_unmatched (h : Labels f ts) (rest : List (Token × Nat)) (cs : List Bytes)
    (hlt : matchedDepth < depth) :
    scan (ts ++ rest) cs depth matchedDepth = scan rest cs depth matchedDepth := by
  induction h generalizing rest depth with
  | nil => rfl
  | node hps _ _ ihc ihn =>
    rw [cons_append, scan_pass fun h => absurd h hlt.ne',
      append_assoc, scan_props hps, append_assoc, ihc _ (by omega),
      cons_append, scan, if_neg (by omega), if_neg (by omega),
      Nat.add_sub_cancel, ihn _ hlt]

/-! ## The walk -/

def Forest.size : Forest → Nat
  | .nil => 0
  | .node _ _ children next => 1 + children.size + next.size

/--
What is left of a path after a walk over the nodes in document order: a node that has the
first name of the path takes it off and is entered, another one is passed over.
-/
def Forest.leftover : Forest → List Bytes → List Bytes
  | .nil, cs => cs
  | .node .., [] => []
  | .node name _ children next, c :: cs =>
    if name = c then next.leftover (children.leftover cs) else next.leftover (c :: cs)

def Forest.walk : Forest → List Bytes → Option Nat
  | .nil, _ => none
  | .node .., [] => none
  | .node name _ children next, c :: cs =>
    if name = c then
      if cs = [] then some 0
      else
        match children.walk cs with
        | some i => some (i + 1)
        | none => (next.walk (children.leftover cs)).map (· + (1 + children.size))
    else (next.walk (c :: cs)).map (· + (1 + children.size))

@[simp] theorem leftover_nil (f : Forest) : f.leftover [] = [] := by
  cases f <;> rfl

theorem walk_eq_none_iff (hne : cs ≠ []) : f.walk cs = none ↔ f.leftover cs ≠ [] := by
  induction f generalizing cs with
  | nil => simpa [walk, leftover] using hne
  | node name props children next ihc ihn =>
    obtain ⟨c, cs, rfl⟩ := exists_cons_of_ne_nil hne
    rw [walk, leftover]
    by_cases hname : name = c
    · rw [if_pos hname, if_pos hname]
      by_cases hcs : cs = []
      · simp [hcs]
      have hc := ihc hcs
      rcases hwalk : children.walk cs with _ | i
      · have hleft := hc.mp hwalk
        simpa [hcs] using ihn hleft
      have hleft : children.leftover cs = [] := by
        by_contra hleft
        rw [hc.mpr hleft] at hwalk
        cases hwalk
      simp [hcs, hleft]
    rw [if_neg hname, if_neg hname, Option.map_eq_none_iff]
    exact ihn hne

theorem begins_length (h : Labels f ts) : (begins ts).length = f.size := by
  induction h with
  | nil => rfl
  | node hps _ _ ihc ihn =>
    simp only [begins, begins_append, begins_props hps, List.length_cons,
      List.length_append, List.length_nil, ihc, ihn, Forest.size]
    omega

theorem scan_matched (h : Labels f ts) (rest : List (Token × Nat)) (hne : cs ≠ []) (depth : Nat) :
    (∀ i, f.walk cs = some i → ∃ off, (begins ts)[i]? = some off ∧
      scan (ts ++ rest) cs depth depth = .ok off) ∧
    (f.walk cs = none →
      scan (ts ++ rest) cs depth depth = scan rest (f.leftover cs) depth depth) := by
  induction h generalizing rest cs depth with
  | nil => exact ⟨nofun, fun _ => rfl⟩
  | @node name props children next off stop ps cts nts hps hcs hns ihc ihn =>
    obtain ⟨c, cs, rfl⟩ := List.exists_cons_of_ne_nil hne
    have hlength := begins_length hcs
    -- the nodes after this one, when it has been left
    have hnext : ∀ {cs'}, cs' ≠ [] → ∀ j, next.walk cs' = some j → ∃ off',
        (begins ((Token.beginNode name, off) ::
          (ps ++ (cts ++ (.endNode, stop) :: nts))))[j + (1 + children.size)]? = some off' ∧
        scan (nts ++ rest) cs' depth depth = .ok off' := by
      intro cs' hne' j hj
      obtain ⟨off', hget, hscan⟩ := (ihn rest hne' depth).1 j hj
      refine ⟨off', ?_, hscan⟩
      simp only [begins, begins_append, begins_props hps, List.nil_append]
      rw [show j + (1 + children.size) = j + children.size + 1 by omega,
        List.getElem?_cons_succ, List.getElem?_append_right (by omega), hlength,
        Nat.add_sub_cancel]
      exact hget
    rw [Forest.walk, Forest.leftover, List.cons_append]
    by_cases hname : name = c
    · subst hname
      simp only [if_true, scan_enter]
      by_cases hnil : cs = []
      · subst hnil
        refine ⟨fun i hi => ⟨off, ?_, rfl⟩, nofun⟩
        obtain rfl := Option.some.inj hi
        rfl
      simp only [hnil, if_false]
      rw [List.append_assoc, scan_props hps, List.append_assoc]
      obtain ⟨hfound, hleft⟩ := ihc ((Token.endNode, stop) :: nts ++ rest) hnil (depth + 1)
      rcases hwalk : children.walk cs with _ | i
      · have hne' := (walk_eq_none_iff hnil).mp hwalk
        rw [hleft hwalk, List.cons_append, scan, if_neg (Nat.succ_ne_zero depth),
          if_pos rfl, Nat.add_sub_cancel]
        refine ⟨fun i hi => ?_, fun hi => ?_⟩
        · obtain ⟨j, hj, rfl⟩ := Option.map_eq_some_iff.mp hi
          exact hnext hne' j hj
        · exact (ihn rest hne' depth).2 (Option.map_eq_none_iff.mp hi)
      obtain ⟨off', hget, hscan⟩ := hfound i hwalk
      refine ⟨fun i' hi' => ⟨off', ?_, hscan⟩, nofun⟩
      obtain rfl := Option.some.inj hi'
      simp only [begins, begins_append, begins_props hps, List.nil_append, List.getElem?_cons_succ]
      rw [List.getElem?_append_left (List.getElem?_eq_some_iff.mp hget).1]
      exact hget
    have hother : (c :: cs).head? ≠ some name := fun h => hname (Option.some.inj h).symm
    rw [if_neg hname, if_neg hname, scan_pass fun _ => hother, List.append_assoc,
      scan_props hps, List.append_assoc, scan_unmatched hcs _ _ (Nat.lt_add_one _),
      List.cons_append, scan, if_neg (Nat.succ_ne_zero depth),
      if_neg (Nat.succ_ne_self depth), Nat.add_sub_cancel]
    refine ⟨fun i hi => ?_, fun hi => ?_⟩
    · obtain ⟨j, hj, rfl⟩ := Option.map_eq_some_iff.mp hi
      exact hnext hne j hj
    · exact (ihn rest hne depth).2 (Option.map_eq_none_iff.mp hi)

/-! ## Chains -/

def Forest.Reaches : Forest → List Bytes → Prop
  | .nil, _ => False
  | .node .., [] => False
  | .node name _ children next, c :: cs =>
    (name = c ∧ (cs = [] ∨ children.Reaches cs)) ∨ (name ≠ c ∧ next.Reaches (c :: cs))

theorem chains_length (f : Forest) : f.chains.length = f.size := by
  induction f with
  | nil => rfl
  | node name props children next ihc ihn =>
    simp [Forest.chains, Forest.size, ihc, ihn]
    omega

theorem leftover_length_le (f : Forest) (cs : List Bytes) : (f.leftover cs).length ≤ cs.length := by
  induction f generalizing cs with
  | nil => exact Nat.le_refl _
  | node name props children next ihc ihn =>
    cases cs with
    | nil => exact Nat.le_refl _
    | cons c cs =>
      rw [leftover]
      split
      · exact ((ihn _).trans (ihc cs)).trans (Nat.le_succ _)
      · exact ihn _

theorem findIdx?_map_cons (name c : Bytes) (cs : List Bytes) (l : List (List Bytes)) :
    (l.map (name :: ·)).findIdx? (· = c :: cs) =
      if name = c then l.findIdx? (· = cs) else none := by
  rw [findIdx?_map]
  split
  all_goals
    rename_i h
    simp [Function.comp_def, h]

theorem findIdx?_chains_node (name : Bytes) (props : List Property)
    (children next : Forest) (c : Bytes) (cs : List Bytes) :
    (Forest.node name props children next).chains.findIdx? (· = c :: cs) =
      if name = c ∧ cs = [] then some 0
      else ((if name = c then children.chains.findIdx? (· = cs) else none).or
        ((next.chains.findIdx? (· = c :: cs)).map (· + children.size))).map (· + 1) := by
  rw [Forest.chains, List.findIdx?_cons, List.findIdx?_append, findIdx?_map_cons,
    List.length_map, chains_length]
  by_cases h : name = c ∧ cs = []
  · obtain ⟨rfl, rfl⟩ := h
    simp
  have hne : [name] ≠ c :: cs := by
    simpa [eq_comm] using h
  simp [h, hne]

theorem walk_of_reaches (h : f.Reaches cs) :
    ∃ i, f.walk cs = some i ∧ f.chains.findIdx? (· = cs) = some i := by
  induction f generalizing cs with
  | nil => exact h.elim
  | node name props children next ihc ihn =>
    cases cs with
    | nil => exact h.elim
    | cons c cs =>
      rw [walk, findIdx?_chains_node]
      rcases h with ⟨rfl, h⟩ | ⟨hname, h⟩
      · by_cases hnil : cs = []
        · exact ⟨0, by simp [hnil], by simp [hnil]⟩
        · obtain ⟨i, hwalk, hfind⟩ := ihc (h.resolve_left hnil)
          exact ⟨i + 1, by simp [hnil, hwalk], by simp [hnil, hfind]⟩
      obtain ⟨i, hwalk, hfind⟩ := ihn h
      refine ⟨i + (1 + children.size), by simp [hname, hwalk], ?_⟩
      simp [hname, hfind]
      omega

theorem chain_of_walk (h : f.walk cs = some i) :
    ∃ chain, f.chains[i]? = some chain ∧ chain.length ≤ cs.length ∧
      (chain.length = cs.length → f.Reaches cs) := by
  induction f generalizing cs i with
  | nil => cases h
  | node name props children next ihc ihn =>
    cases cs with
    | nil => cases h
    | cons c cs =>
      -- the place of a node that comes after this one
      have hlater : ∀ j, (Forest.node name props children next).chains[j +
          (1 + children.size)]? = next.chains[j]? := by
        intro j
        rw [Forest.chains, show j + (1 + children.size) = j + children.size + 1 by omega,
          List.getElem?_cons_succ, List.getElem?_append_right (by simp [chains_length]),
          List.length_map, chains_length, Nat.add_sub_cancel]
      rw [Forest.walk] at h
      by_cases hname : name = c
      · rw [if_pos hname] at h
        by_cases hnil : cs = []
        · rw [if_pos hnil] at h
          obtain rfl := Option.some.inj h
          exact ⟨[name], rfl, by simp, fun _ => .inl ⟨hname, .inl hnil⟩⟩
        rw [if_neg hnil] at h
        rcases hwalk : children.walk cs with _ | j
        · rw [hwalk] at h
          obtain ⟨j, hj, rfl⟩ := Option.map_eq_some_iff.mp h
          obtain ⟨chain, hget, hle, -⟩ := ihn hj
          have hshort := leftover_length_le children cs
          refine ⟨chain, (hlater j).trans hget, ?_, fun heq => ?_⟩
          · exact (hle.trans hshort).trans (Nat.le_succ _)
          rw [List.length_cons] at heq
          omega
        rw [hwalk] at h
        obtain rfl := Option.some.inj h
        obtain ⟨chain, hget, hle, hreach⟩ := ihc hwalk
        have hlt := (List.getElem?_eq_some_iff.mp hget).1
        refine ⟨name :: chain, ?_, Nat.succ_le_succ hle, fun heq =>
          .inl ⟨hname, .inr (hreach (Nat.succ_injective heq))⟩⟩
        rw [Forest.chains, List.getElem?_cons_succ,
          List.getElem?_append_left (by simpa using hlt), List.getElem?_map, hget]
        rfl
      rw [if_neg hname] at h
      obtain ⟨j, hj, rfl⟩ := Option.map_eq_some_iff.mp h
      obtain ⟨chain, hget, hle, hreach⟩ := ihn hj
      exact ⟨chain, (hlater j).trans hget, hle, fun heq => .inr ⟨hname, hreach heq⟩⟩

theorem walk_exact_iff (hne : cs ≠ []) : f.walk cs = f.chains.findIdx? (· = cs) ↔
      f.Reaches cs ∨ (cs ∉ f.chains ∧ f.leftover cs ≠ []) := by
  have hmem : f.chains.findIdx? (· = cs) = none ↔ cs ∉ f.chains := by
    rw [findIdx?_eq_none_iff]
    constructor
    · intro h hcs
      simpa using h cs hcs
    intro h chain hchain
    simpa using fun heq : chain = cs => h (heq ▸ hchain)
  constructor
  · intro heq
    rcases hwalk : f.walk cs with _ | i
    · rw [hwalk] at heq
      exact .inr ⟨hmem.mp heq.symm, (walk_eq_none_iff hne).mp hwalk⟩
    rw [hwalk] at heq
    obtain ⟨chain, hget, -, hreach⟩ := chain_of_walk hwalk
    obtain ⟨hlt, hchain, -⟩ := findIdx?_eq_some_iff_getElem.mp heq.symm
    rw [decide_eq_true_eq] at hchain
    rw [getElem?_eq_getElem hlt, hchain] at hget
    obtain rfl := Option.some.inj hget
    exact .inl (hreach rfl)
  rintro (hreach | ⟨hnone, hleft⟩)
  · obtain ⟨i, hwalk, hfind⟩ := walk_of_reaches hreach
    rw [hwalk, hfind]
  · rw [(walk_eq_none_iff hne).mpr hleft, hmem.mpr hnone]

end SlmOs.Fdt
