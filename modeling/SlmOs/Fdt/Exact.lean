import SlmOs.Fdt.Lookup

/-!
# Lookups in a document

The reader on the bytes of a whole document: which paths are looked up rightly, what a
property lookup gives, and that on any block the reader ends and stays inside of it.
-/

namespace SlmOs.Fdt

open Foundation List Token Nat Option Prod

/-! ## Offsets -/

theorem encodeAll_append (ts ts' : List Token) :
    encodeAll (ts ++ ts') = encodeAll ts ++ encodeAll ts' :=
  flatMap_append

theorem label_ge : ∀ x ∈ label off ts, off ≤ x.2 := by
  induction ts generalizing off with
  | nil => nofun
  | cons t ts ih =>
    intro x hx
    rcases mem_cons.mp hx with rfl | hx
    · exact le_refl _
    · exact (le_add_right _ _).trans (ih x hx)

theorem label_sorted (off : Nat) (ts : List Token) :
    (label off ts).Pairwise fun x y => x.2 < y.2 := by
  induction ts generalizing off with
  | nil => exact .nil
  | cons t ts ih =>
    refine .cons (fun y hy => ?_) (ih _)
    have hge := label_ge y hy
    have hpos := t.encode_length.2
    omega

theorem begins_sublist (ts : List (Token × Nat)) : (begins ts).Sublist (ts.map snd) := by
  induction ts with
  | nil => exact .slnil
  | cons t ts ih =>
    obtain ⟨t, off⟩ := t
    cases t with
    | beginNode name => exact ih.cons_cons off
    | endNode | prop _ | nop | fin => exact ih.cons off

theorem nodeOffsets_nodup (ts : List Token) : (nodeOffsets ts).Nodup := by
  have hsorted := (label_sorted 0 ts).map snd fun _ _ h => h
  exact (hsorted.sublist (begins_sublist _)).imp ne_of_lt

theorem label_split (h : label off ts = a ++ (t, o) :: b) :
    ∃ ta tb, ts = ta ++ t :: tb ∧ o = off + (encodeAll ta).length ∧
      b = label (o + t.encode.length) tb := by
  induction a generalizing off ts with
  | nil =>
    cases ts with
    | nil => cases h
    | cons t' ts =>
      obtain ⟨⟨rfl, rfl⟩, rfl⟩ := h
      exact ⟨[], ts, rfl, rfl, rfl⟩
  | cons x a ih =>
    cases ts with
    | nil => cases h
    | cons t' ts =>
      obtain ⟨-, h⟩ := List.cons.inj h
      obtain ⟨ta, tb, rfl, rfl, rfl⟩ := ih h
      refine ⟨t' :: ta, tb, rfl, ?_, rfl⟩
      rw [encodeAll_cons, length_append, add_assoc]

/-! ## The tokens of a document -/

variable {t : Tree} {ts : List Token} {strings : Bytes}

theorem encode_length_le (h : tok ∈ ts) : tok.encode.length ≤ (encodeAll ts).length := by
  obtain ⟨a, b, rfl⟩ := append_of_mem h
  rw [encodeAll_append, encodeAll_cons, length_append, length_append]
  omega

theorem length_le_encodeAll (ts : List Token) : ts.length ≤ (encodeAll ts).length := by
  induction ts with
  | nil => exact le_refl _
  | cons tok ts ih =>
    have hpos := tok.encode_length.2
    rw [encodeAll_cons, length_append, length_cons]
    omega

theorem Property.NamedIn.nameoff_lt {p : Property} (h : p.NamedIn strings) :
    p.nameoff < strings.length := by
  obtain ⟨-, tail, hdrop⟩ := h
  by_contra hge
  rw [drop_eq_nil_of_le (Nat.le_of_not_lt hge)] at hdrop
  simp at hdrop

section

variable (h : Document t ts strings)
include h

theorem Document.readable {tok : Token} (htok : tok ∈ ts) : tok.Readable := by
  have hle := (encode_length_le htok).trans_lt h.size
  cases tok with
  | beginNode name =>
    have hpad := padding_length (name.length + 1)
    simp only [encode, length_append, length_cons, be32_length] at hle
    exact ⟨h.names name htok, by omega⟩
  | prop p =>
    have hpad := padding_length p.value.length
    simp only [encode, length_append, be32_length] at hle
    exact ⟨by omega, (h.props p htok).nameoff_lt.trans h.strings_size⟩
  | endNode | nop | fin => trivial

theorem Document.start : (∃ rest, ts = .nop :: rest) ∨ ∃ rest, ts = .beginNode t.name :: rest ∧
      rest.filter Token.counts = t.props.map .prop ++ (t.children.tokens ++ [.endNode, .fin]) := by
  have htokens := h.tokens
  cases ts with
  | nil => cases htokens
  | cons tok rest =>
    by_cases htok : tok = .nop
    · exact .inl ⟨rest, by rw [htok]⟩
    have hcounts : tok.counts = true := by
      cases tok with
      | nop => exact absurd rfl htok
      | beginNode _ | endNode | prop _ | fin => rfl
    rw [filter_cons_of_pos hcounts] at htokens
    obtain ⟨rfl, hrest⟩ := List.cons.inj htokens
    exact .inr ⟨rest, rfl, hrest⟩

theorem Document.labelled : ∃ off ps cts oe of, (label 0 ts).filter (·.1.counts) =
        (.beginNode t.name, off) :: (ps ++ (cts ++ [(.endNode, oe), (.fin, of)])) ∧
      ps.map fst = t.props.map .prop ∧ Labels t.children cts := by
  have hmap : ((label 0 ts).filter (·.1.counts)).map fst = t.tokens := by
    rw [filter_map_fst, label_map_fst, h.tokens]
  obtain ⟨⟨b, off⟩, ls, hls, rfl, hbody⟩ := map_eq_cons_iff.mp hmap
  obtain ⟨ps, ls, rfl, hps, hbelow⟩ := map_eq_append_iff.mp hbody
  obtain ⟨cts, ls, rfl, hcts, hends⟩ := map_eq_append_iff.mp hbelow
  obtain ⟨⟨e, oe⟩, ls, rfl, rfl, hfin⟩ := map_eq_cons_iff.mp hends
  obtain ⟨⟨f, of⟩, ls, rfl, rfl, hnil⟩ := map_eq_cons_iff.mp hfin
  obtain rfl := map_eq_nil_iff.mp hnil
  exact ⟨off, ps, cts, oe, of, hls, hps, labels_of_map hcts⟩

end

theorem nodeOffsets_eq (hlabels : (label 0 ts).filter (·.1.counts) =
      (.beginNode t.name, off) :: (ps ++ (cts ++ [(.endNode, oe), (.fin, of)])))
    (hps : ps.map fst = t.props.map .prop) :
    nodeOffsets ts = off :: begins cts := by
  unfold nodeOffsets
  rw [← begins_filter, hlabels, begins, begins_append, begins_props hps, begins_append]
  simp [begins]

theorem Document.nodeOffsets_length (h : Document t ts strings) :
    (nodeOffsets ts).length = t.children.size + 1 := by
  obtain ⟨off, ps, cts, oe, of, hlabels, hps, hl⟩ := h.labelled
  rw [nodeOffsets_eq hlabels hps, length_cons, begins_length hl]

/-! ## Lookup by path -/

theorem findIn_nop (rest : List Token) (path : Bytes) (hpath : path.head? = some slash) :
    findIn (encodeAll (.nop :: rest)) path = .error (.status .badStruct) := by
  unfold findIn
  rw [if_neg (not_not_intro hpath), if_neg (by simp [encode]), encodeAll_cons,
    encode, readBe32_be32 (by decide)]
  rfl

theorem findIn_root (hname : (Token.beginNode name).Readable) (cs : List Bytes) :
    findIn (encodeAll (.beginNode name :: rest)) (absolutePath cs) =
      if joinPath cs = [] then .ok 0
      else findLoop (encodeAll (.beginNode name :: rest)).length
        ((encodeAll (.beginNode name :: rest)).length + 1) (encodeAll rest)
        (joinPath cs) 0 0 := by
  have hskip := skipName_name hname.1 hname.2 (encodeAll rest)
  have hpath : (absolutePath cs).head? = some slash := rfl
  unfold findIn
  rw [if_neg (not_not_intro hpath), if_neg (by simp [encode])]
  have hread : readBe32 (encodeAll (.beginNode name :: rest)) = .ok fdtBeginNode := by
    rw [encodeAll_cons, encode, append_assoc]
    exact readBe32_be32 (by decide) _
  have hdrop : (encodeAll (.beginNode name :: rest)).drop 4 =
      name ++ 0 :: padding (name.length + 1) ++ encodeAll rest := by
    rw [encodeAll_cons, encode, append_assoc, drop_be32]
  rw [hread, hdrop]
  simp only [bind, Except.bind, hskip]
  rfl

variable {cs : List Bytes}

theorem findIn_walk (h : Document t ts strings) (hts : ts = .beginNode t.name :: rest)
    (hcs : Components cs) (hne : cs ≠ []) :
    (∀ i, t.children.walk cs = some i → ∃ off, (nodeOffsets ts)[i + 1]? = some off ∧
      findIn (encodeAll ts) (absolutePath cs) = .ok off) ∧
    (t.children.walk cs = none →
      findIn (encodeAll ts) (absolutePath cs) = .error (.status .notFound)) := by
  obtain ⟨off, ps, cts, oe, of, hlabels, hps, hl⟩ := h.labelled
  have hbegins := nodeOffsets_eq hlabels hps
  rw [hts, label, filter_cons_of_pos rfl] at hlabels
  obtain ⟨-, hlabels⟩ := List.cons.inj hlabels
  have hscan : findIn (encodeAll ts) (absolutePath cs) =
      scan (cts ++ [(endNode, oe), (Token.fin, of)]) cs 0 0 := by
    have hmem : ∀ tok ∈ rest, tok.Readable := fun tok htok =>
      h.readable (hts ▸ mem_cons_of_mem _ htok)
    have hroot := h.readable (hts ▸ mem_cons_self : beginNode t.name ∈ ts)
    have hle : (encodeAll rest).length ≤ (encodeAll (.beginNode t.name :: rest)).length := by
      rw [encodeAll_cons, length_append]
      exact le_add_left _ _
    have hlen := lt_succ_of_le ((length_le_encodeAll rest).trans hle)
    rw [hts, findIn_root hroot, if_neg (joinPath_ne_nil hcs hne),
      findLoop_eq_scan hmem hcs hne hlen hle, encodeAll_cons, length_append,
      Nat.add_sub_cancel, ← scan_filter, ← Nat.zero_add (encode _).length, hlabels,
      scan_props hps]
  obtain ⟨hfound, hleft⟩ := scan_matched hl [(endNode, oe), (Token.fin, of)] hne 0
  refine ⟨fun i hi => ?_, fun hnone => ?_⟩
  · obtain ⟨off', hget, hok⟩ := hfound i hi
    refine ⟨off', ?_, hscan.trans hok⟩
    rw [hbegins, getElem?_cons_succ]
    exact hget
  rw [hscan, hleft hnone]
  rfl

/-- The first node in document order with the path, and otherwise that there is none. -/
def LookupExact (r : Outcome Nat) (t : Tree) (ts : List Token) (cs : List Bytes) : Prop :=
  r = ((t.chains.findIdx? (· = cs)).bind fun i => (nodeOffsets ts)[i]?).elim
    (.error (.status .notFound)) .ok

theorem findIdx?_tree (t : Tree) (hne : cs ≠ []) : t.chains.findIdx? (· = cs) =
      (t.children.chains.findIdx? (· = cs)).map (· + 1) := by
  rw [Tree.chains, findIdx?_cons]
  simp [hne.symm]

theorem lookupExact_iff (h : Document t ts strings) (hcs : Components cs) :
    LookupExact (findIn (encodeAll ts) (absolutePath cs)) t ts cs ↔ ts.head? ≠ some .nop ∧
      (cs = [] ∨ t.children.Reaches cs ∨ (cs ∉ t.chains ∧ t.children.leftover cs ≠ [])) := by
  unfold LookupExact
  rcases h.start with ⟨rest, hts⟩ | ⟨rest, hts, -⟩
  · -- the library does not look behind a NOP token at the start
    rw [hts, findIn_nop rest _ rfl]
    refine iff_of_false (fun heq => ?_) fun hstart => hstart.1 rfl
    rcases hbind : (t.chains.findIdx? (· = cs)).bind
      fun i => (nodeOffsets (.nop :: rest))[i]? with _ | off <;> rw [hbind] at heq <;>
        cases heq
  have hstart : ts.head? ≠ some .nop := by
    rw [hts]
    nofun
  have hroot := h.readable (hts ▸ List.mem_cons_self : Token.beginNode t.name ∈ ts)
  by_cases hne : cs = []
  · subst hne
    refine iff_of_true ?_ ⟨hstart, .inl rfl⟩
    rw [hts, findIn_root hroot]
    rfl
  have hmem : cs ∉ t.chains ↔ cs ∉ t.children.chains := by
    simp [Tree.chains, hne]
  rw [hmem]
  simp only [hstart, hne, ne_eq, not_false_eq_true, true_and, false_or]
  rw [← walk_exact_iff hne, findIdx?_tree t hne]
  obtain ⟨hfound, hleft⟩ := findIn_walk h hts hcs hne
  have hoffset : ∀ j, t.children.chains.findIdx? (· = cs) = some j →
      ∃ off, (nodeOffsets ts)[j + 1]? = some off := by
    intro j hj
    obtain ⟨hlt, -⟩ := List.findIdx?_eq_some_iff_getElem.mp hj
    rw [chains_length] at hlt
    have hlt' : j + 1 < (nodeOffsets ts).length := by
      rw [h.nodeOffsets_length]
      omega
    exact ⟨_, List.getElem?_eq_getElem hlt'⟩
  rcases hwalk : t.children.walk cs with _ | i
  · rw [hleft hwalk]
    rcases hfind : t.children.chains.findIdx? (· = cs) with _ | j
    · exact iff_of_true rfl rfl
    refine iff_of_false (fun heq => ?_) nofun
    rw [map_some, bind_some, (hoffset j hfind).choose_spec] at heq
    cases heq
  obtain ⟨off, hget, hok⟩ := hfound i hwalk
  rw [hok]
  rcases hfind : t.children.chains.findIdx? (· = cs) with _ | j
  · exact iff_of_false nofun nofun
  obtain ⟨off', hget'⟩ := hoffset j hfind
  rw [map_some, bind_some, hget']
  constructor
  · intro heq
    obtain rfl : off = off' := Except.ok.inj heq
    have hsame := (List.getElem?_inj (List.getElem?_eq_some_iff.mp hget).1
      (nodeOffsets_nodup ts)).mp (hget.trans hget'.symm)
    rw [succ_injective hsame]
  intro heq
  obtain rfl := some.inj heq
  obtain rfl := some.inj (hget.symm.trans hget')
  rfl

/-! ## Properties -/

def Token.endsProps : Token → Bool
  | .beginNode _ | .endNode | .fin => true
  | .prop _ | .nop => false

section Steps

variable (size fuel : Nat) (propName rest : Bytes)

theorem propLoop_prop (h : (Token.prop p).Readable) (hname : p.NamedIn strings) :
    propLoop size strings propName (fuel + 1) ((Token.prop p).encode ++ rest) =
      if p.name = propName then
        .ok (size - (p.value ++ padding p.value.length ++ rest).length, p.value.length)
      else propLoop size strings propName fuel rest := by
  obtain ⟨hpad, hoff⟩ := h
  obtain ⟨hzero, tail, hdrop⟩ := hname
  have hlt : p.nameoff < strings.length := Property.NamedIn.nameoff_lt ⟨hzero, tail, hdrop⟩
  have hlen : p.value.length < 2 ^ 32 := (Nat.le_add_right _ _).trans_lt hpad
  rw [propLoop, if_neg (by simp [encode])]
  simp only [encode, append_assoc, drop_be32]
  rw [readBe32_be32 (by decide)]
  simp only [bind, Except.bind]
  rw [if_pos trivial, if_neg (by simp; omega), readBe32_be32 hlen]
  rw [readBe32_be32 hoff]
  dsimp only
  rw [if_neg (Nat.not_le.mpr hlt), boundedStrMatch, hdrop, boundedStrlen_name hzero,
    cString_name hzero]
  rw [drop_be32_be32, ← append_assoc, skipValue_value hpad]
  simp only [Except.map, decide_eq_true_eq, append_assoc]

theorem propLoop_nop : propLoop size strings propName (fuel + 1) (Token.nop.encode ++ rest) =
      propLoop size strings propName fuel rest := by
  rw [propLoop, if_neg (by simp [encode])]
  simp only [encode, drop_be32]
  rw [readBe32_be32 (by decide)]
  rfl

theorem propLoop_ends {tok : Token} (h : tok.endsProps = true) :
    propLoop size strings propName (fuel + 1) (tok.encode ++ rest) =
      .error (.status .notFound) := by
  rw [propLoop, if_neg (by have := tok.encode_length.2; simp; omega)]
  cases tok with
  | prop _ | nop => cases h
  | beginNode name =>
    rw [encode, append_assoc, readBe32_be32 (by decide)]
    rfl
  | endNode | fin =>
    rw [encode, readBe32_be32 (by decide)]
    rfl

end Steps

def FindsValue (block : Bytes) (r : Outcome (Nat × Nat)) (p : Property) : Prop :=
  ∃ data, r = .ok (data, p.value.length) ∧ (block.drop data).take p.value.length = p.value

variable {props : List Property}

theorem propLoop_tokens {block before propName : Bytes} {tail : List Token} {last : Token}
    {more : List Token} {fuel : Nat} (hblock : block = before ++ encodeAll tail)
    (hread : ∀ tok ∈ tail, tok.Readable) (hnamed : ∀ p, .prop p ∈ tail → p.NamedIn strings)
    (htail : tail.filter Token.counts = props.map .prop ++ last :: more)
    (hlast : last.endsProps = true) (hfuel : tail.length < fuel) :
    (∀ p, props.find? (·.name = propName) = some p → FindsValue block
      (propLoop block.length strings propName fuel (encodeAll tail)) p) ∧
    (props.find? (·.name = propName) = none →
      propLoop block.length strings propName fuel (encodeAll tail) =
        .error (.status .notFound)) := by
  induction tail generalizing before props fuel with
  | nil => simp at htail
  | cons tok tail ih =>
    obtain ⟨fuel, rfl⟩ := exists_eq_add_one_of_ne_zero (ne_zero_of_lt hfuel)
    have hfuel' : tail.length < fuel := lt_of_succ_lt_succ hfuel
    have hread' := fun x hx => hread x (mem_cons_of_mem _ hx)
    have hnamed' := fun p hp => hnamed p (mem_cons_of_mem _ hp)
    have hblock' : block = (before ++ tok.encode) ++ encodeAll tail := by
      rw [hblock, encodeAll_cons, append_assoc]
    rw [encodeAll_cons]
    by_cases hnop : tok = .nop
    · subst hnop
      rw [propLoop_nop]
      exact ih hblock' hread' hnamed' htail hfuel'
    have hcounts : tok.counts = true := by
      cases tok with
      | nop => exact absurd rfl hnop
      | beginNode _ | endNode | prop _ | fin => rfl
    rw [filter_cons_of_pos hcounts] at htail
    cases props with
    | nil =>
      obtain ⟨rfl, -⟩ := List.cons.inj htail
      exact ⟨nofun, fun _ => propLoop_ends _ _ _ _ hlast⟩
    | cons p props =>
      obtain ⟨rfl, htail'⟩ := List.cons.inj htail
      rw [propLoop_prop _ _ _ _ (hread _ mem_cons_self) (hnamed p mem_cons_self), find?_cons]
      by_cases hname : p.name = propName
      · simp only [hname, decide_true, if_true]
        refine ⟨fun p' hp' => ?_, nofun⟩
        obtain rfl := some.inj hp'
        refine ⟨_, rfl, ?_⟩
        have hvalue : block = (before ++ (be32 fdtProp ++ (be32 p.value.length ++
            be32 p.nameoff))) ++ (p.value ++ padding p.value.length ++ encodeAll tail) := by
          rw [hblock']
          simp [encode]
        rw [hvalue, length_append, Nat.add_sub_cancel, drop_left, append_assoc, take_left]
      simp only [hname, decide_false, if_false]
      exact ih hblock' hread' hnamed' htail' hfuel'

theorem nodeProps_length (f : Forest) : f.nodeProps.length = f.size := by
  induction f with
  | nil => rfl
  | node name props children next ihc ihn =>
    simp only [Forest.nodeProps, Forest.size, length_cons, length_append, ihc, ihn]
    omega

theorem Labels.start (h : Labels f ls) :
    ls = [] ∨ ∃ name off rest, ls = (.beginNode name, off) :: rest := by
  cases h with
  | nil => exact .inl rfl
  | node _ _ _ => exact .inr ⟨_, _, _, rfl⟩

variable {i off : Nat}

theorem labels_node_at (h : Labels f ls) (hoff : (begins ls)[i]? = some off)
    (hprops : f.nodeProps[i]? = some props) :
    ∃ a name ps last o b, ls = a ++ (.beginNode name, off) :: (ps ++ (last, o) :: b) ∧
      ps.map fst = props.map .prop ∧ last.endsProps = true := by
  induction h generalizing i with
  | nil => cases hprops
  | @node name props' children next off' stop ps cts nts hps hcs hns ihc ihn =>
    simp only [begins, begins_append, begins_props hps, nil_append] at hoff
    rw [Forest.nodeProps] at hprops
    have hlength := begins_length hcs
    have hlength' := nodeProps_length children
    cases i with
    | zero =>
      obtain rfl := some.inj hoff
      obtain rfl := some.inj hprops
      rcases hcs.start with rfl | ⟨name', o', cts, rfl⟩
      · exact ⟨[], name, ps, .endNode, stop, nts, rfl, hps, rfl⟩
      · exact ⟨[], name, ps, .beginNode name', o', _, rfl, hps, rfl⟩
    | succ i =>
      rw [getElem?_cons_succ] at hoff hprops
      by_cases hi : i < children.size
      · rw [getElem?_append_left (by omega)] at hoff hprops
        obtain ⟨a, n, ps', last, o, b, rfl, hps', hlast⟩ := ihc hoff hprops
        refine ⟨(.beginNode name, off') :: (ps ++ a), n, ps', last, o,
          b ++ (.endNode, stop) :: nts, ?_, hps', hlast⟩
        simp
      rw [getElem?_append_right (by omega), hlength] at hoff
      rw [getElem?_append_right (by omega), hlength'] at hprops
      obtain ⟨a, n, ps', last, o, b, rfl, hps', hlast⟩ := ihn hoff hprops
      refine ⟨(.beginNode name, off') :: (ps ++ (cts ++ (.endNode, stop) :: a)), n,
        ps', last, o, b, ?_, hps', hlast⟩
      simp

theorem Document.node_at (h : Document t ts strings) (hoff : (nodeOffsets ts)[i]? = some off)
    (hprops : t.nodeProps[i]? = some props) :
    ∃ ta name tb last more, ts = ta ++ .beginNode name :: tb ∧ off = (encodeAll ta).length ∧
      tb.filter Token.counts = props.map .prop ++ last :: more ∧
      last.endsProps = true := by
  obtain ⟨o, ps, cts, oe, of, hlabels, hps, hl⟩ := h.labelled
  rw [nodeOffsets_eq hlabels hps] at hoff
  have hat : ∃ a name ps last o b, (label 0 ts).filter (·.1.counts) =
      a ++ (.beginNode name, off) :: (ps ++ (last, o) :: b) ∧
      ps.map fst = props.map .prop ∧ last.endsProps = true := by
    cases i with
    | zero =>
      obtain rfl := some.inj hoff
      obtain rfl := some.inj hprops
      rcases hl.start with rfl | ⟨name, o', cts, rfl⟩
      · exact ⟨[], t.name, ps, .endNode, oe, [(.fin, of)], hlabels, hps, rfl⟩
      · exact ⟨[], t.name, ps, .beginNode name, o', _, hlabels, hps, rfl⟩
    | succ i =>
      obtain ⟨a, name, ps', last, o', b, rfl, hps', hlast⟩ := labels_node_at hl hoff hprops
      refine ⟨(.beginNode t.name, o) :: (ps ++ a), name, ps', last, o',
        b ++ [(.endNode, oe), (.fin, of)], ?_, hps', hlast⟩
      rw [hlabels]
      simp
  obtain ⟨a, name, ps', last, o', b, hfilter, hps', hlast⟩ := hat
  obtain ⟨l₁, l₂, hsplit, -, hl₂⟩ := filter_eq_append_iff.mp hfilter
  obtain ⟨m₁, m₂, rfl, -, -, hm₂⟩ := filter_eq_cons_iff.mp hl₂
  rw [← append_assoc] at hsplit
  obtain ⟨ta, tb, hts, ho, rfl⟩ := label_split hsplit
  refine ⟨ta, name, tb, last, b.map fst, hts, by rw [ho, zero_add], ?_, hlast⟩
  have hmap := congrArg (List.map fst) hm₂
  rw [filter_map_fst, label_map_fst] at hmap
  rw [hmap, map_append, hps', map_cons]

theorem propIn_document (h : Document t ts strings) (hoff : (nodeOffsets ts)[i]? = some off)
    (hprops : t.nodeProps[i]? = some props) (propName : Bytes) :
    (∀ p, props.find? (·.name = propName) = some p →
      FindsValue (encodeAll ts) (propIn (encodeAll ts) strings off propName) p) ∧
    (props.find? (·.name = propName) = none →
      propIn (encodeAll ts) strings off propName = .error (.status .notFound)) := by
  obtain ⟨ta, name, tb, last, more, rfl, rfl, htb, hlast⟩ := h.node_at hoff hprops
  have hroot := h.readable (List.mem_append_right ta List.mem_cons_self)
  have hmem : ∀ tok ∈ tb, tok ∈ ta ++ .beginNode name :: tb := fun tok htok =>
    List.mem_append_right ta (List.mem_cons_of_mem _ htok)
  have hblock : encodeAll (ta ++ .beginNode name :: tb) =
      encodeAll ta ++ (Token.beginNode name).encode ++ encodeAll tb := by
    rw [encodeAll_append, encodeAll_cons, List.append_assoc]
  have hprop : propIn (encodeAll (ta ++ .beginNode name :: tb)) strings
      (encodeAll ta).length propName =
      propLoop (encodeAll (ta ++ .beginNode name :: tb)).length strings propName
        ((encodeAll (ta ++ .beginNode name :: tb)).length + 1) (encodeAll tb) := by
    have hdrop : (encodeAll (ta ++ .beginNode name :: tb)).drop (encodeAll ta).length =
        be32 fdtBeginNode ++ (name ++ 0 :: padding (name.length + 1) ++ encodeAll tb) := by
      rw [hblock, List.append_assoc, List.drop_left, Token.encode, List.append_assoc]
    unfold propIn
    rw [hdrop]
    rw [if_neg (by rw [hblock, List.append_assoc, List.length_append]; omega)]
    simp only
    rw [if_neg (by simp), readBe32_be32 (by decide)]
    simp only [bind, Except.bind, drop_be32, skipName_name hroot.1 hroot.2]
    rfl
  rw [hprop]
  refine propLoop_tokens hblock (fun tok htok => h.readable (hmem tok htok))
    (fun p hp => h.props p (hmem _ hp)) htb hlast ?_
  have hle := length_le_encodeAll (ta ++ .beginNode name :: tb)
  rw [List.length_append, List.length_cons] at hle
  omega

/-! ## Any block -/

def Safe {α : Type} (r : Outcome α) : Prop := r ≠ .error .fault ∧ r ≠ .error .stuck

theorem safe_status {α : Type} (s : Status) : Safe (.error (.status s) : Outcome α) :=
  ⟨nofun, nofun⟩

theorem safe_ok {α : Type} (a : α) : Safe (.ok a : Outcome α) := ⟨nofun, nofun⟩

theorem skipName_cases (p : Bytes) : skipName p = .error (.status .badStruct) ∨
      (∃ n, skipName p = .ok (p.drop n)) ∧ ∃ s, cString p = .ok s := by
  unfold skipName boundedStrlen cString
  by_cases h : (p.takeWhile (· ≠ 0)).length = p.length
  · left
    simp only [h, if_true]
  simp only [h, if_false]
  split
  · exact .inl rfl
  · exact .inr ⟨⟨_, rfl⟩, _, rfl⟩

theorem skipValue_cases (p : Bytes) (len : Nat) : skipValue p len = .error (.status .badStruct) ∨
      ∃ n, skipValue p len = .ok (p.drop n) := by
  unfold skipValue
  dsimp only
  split
  · exact .inl rfl
  · exact .inr ⟨_, rfl⟩

variable {p : Bytes}

theorem readBe32_of_le (h : 4 ≤ p.length) : ∃ n, readBe32 p = .ok n := ⟨_, if_pos h⟩

theorem findLoop_safe (size : Nat) (h : p.length < fuel) (cur : Bytes) (depth matchedDepth : Nat) :
    Safe (findLoop size fuel p cur depth matchedDepth) := by
  induction fuel generalizing p cur depth matchedDepth with
  | zero => exact absurd h (Nat.not_lt_zero _)
  | succ fuel ih =>
    rw [findLoop]
    split
    · exact safe_status _
    rename_i hfour
    obtain ⟨tok, htok⟩ := readBe32_of_le (Nat.le_of_not_lt hfour)
    have hrest : ∀ n m, (((p.drop 4).drop n).drop m).length < fuel := by
      intro n m
      simp only [length_drop]
      omega
    have hstep := fun n m => ih (hrest n m)
    simp only [htok, bind, Except.bind]
    by_cases hbegin : tok = fdtBeginNode
    · rw [if_pos hbegin]
      rcases skipName_cases (p.drop 4) with hskip | ⟨⟨n, hskip⟩, s, hs⟩
      · rw [hskip]
        exact safe_status _
      simp only [hskip, hs]
      have hnext := hstep n 0
      split
      · split
        · split
          · exact safe_ok _
          · exact hnext ..
        · exact hnext ..
      · exact hnext ..
    rw [if_neg hbegin]
    have hhere := hstep 0 0
    by_cases hend : tok = fdtEndNode
    · rw [if_pos hend]
      split
      · exact safe_status _
      split <;> exact hhere ..
    rw [if_neg hend]
    by_cases hprop : tok = fdtProp
    · rw [if_pos hprop]
      split
      · exact safe_status _
      obtain ⟨len, hlen⟩ := readBe32_of_le (p := p.drop 4) (by omega)
      simp only [hlen]
      rcases skipValue_cases ((p.drop 4).drop 8) len with hskip | ⟨n, hskip⟩
      · rw [hskip]
        exact safe_status _
      rw [hskip]
      exact hstep 8 n ..
    rw [if_neg hprop]
    split
    · exact hhere ..
    split <;> exact safe_status _

theorem findIn_safe (block path : Bytes) : Safe (findIn block path) := by
  unfold findIn
  split
  · exact safe_status _
  split
  · exact safe_status _
  rename_i hfour
  obtain ⟨tok, htok⟩ := readBe32_of_le (Nat.le_of_not_lt hfour)
  simp only [htok, bind, Except.bind]
  split
  · exact safe_status _
  rcases skipName_cases (block.drop 4) with hskip | ⟨⟨n, hskip⟩, -⟩
  · rw [hskip]
    exact safe_status _
  simp only [hskip]
  split
  · exact safe_ok _
  apply findLoop_safe
  simp only [length_drop]
  omega

theorem boundedStrMatch_cases (p pattern : Bytes) :
    boundedStrMatch p pattern = .error (.status .badStruct) ∨
      ∃ b, boundedStrMatch p pattern = .ok b := by
  unfold boundedStrMatch boundedStrlen cString
  by_cases h : (p.takeWhile (· ≠ 0)).length = p.length
  · left
    simp only [h, if_true]
  simp only [h, if_false]
  exact .inr ⟨_, rfl⟩

theorem propLoop_safe (size : Nat) (strings propName : Bytes)
    (h : p.length < fuel) : Safe (propLoop size strings propName fuel p) := by
  induction fuel generalizing p with
  | zero => exact absurd h (Nat.not_lt_zero _)
  | succ fuel ih =>
    rw [propLoop]
    split
    · exact safe_status _
    rename_i hfour
    obtain ⟨tok, htok⟩ := readBe32_of_le (Nat.le_of_not_lt hfour)
    simp only [htok, bind, Except.bind]
    by_cases hprop : tok = fdtProp
    · rw [if_pos hprop]
      split
      · exact safe_status _
      rename_i height
      obtain ⟨len, hlen⟩ := readBe32_of_le (p := p.drop 4) (by omega)
      obtain ⟨nameoff, hoff⟩ := readBe32_of_le (p := (p.drop 4).drop 4)
        (by simp only [length_drop] at height ⊢; omega)
      simp only [hlen, hoff]
      split
      · exact safe_status _
      rcases boundedStrMatch_cases (strings.drop nameoff) propName with hm | ⟨b, hm⟩
      · rw [hm]
        exact safe_status _
      rcases skipValue_cases ((p.drop 4).drop 8) len with hskip | ⟨n, hskip⟩
      · simp only [hm, hskip]
        exact safe_status _
      simp only [hm, hskip]
      split
      · exact safe_ok _
      apply ih
      simp only [length_drop]
      omega
    rw [if_neg hprop]
    split
    · apply ih
      simp only [length_drop]
      omega
    split <;> exact safe_status _

theorem propIn_safe (block strings : Bytes) (nodeOffset : Nat) (propName : Bytes) :
    Safe (propIn block strings nodeOffset propName) := by
  unfold propIn
  split
  · exact safe_status _
  dsimp only
  split
  · exact safe_status _
  rename_i hfour
  obtain ⟨tok, htok⟩ := readBe32_of_le (Nat.le_of_not_lt hfour)
  simp only [htok, bind, Except.bind]
  split
  · exact safe_status _
  rcases skipName_cases ((block.drop nodeOffset).drop 4) with hskip | ⟨⟨n, hskip⟩, -⟩
  · rw [hskip]
    exact safe_status _
  simp only [hskip]
  apply propLoop_safe
  simp only [length_drop]
  omega

theorem slice_length (blob : Nat → UInt8) (off size : Nat) :
    (slice blob off size).length = size := by
  simp [slice]

theorem headerField_lt (blob : Nat → UInt8) (index : Nat) : headerField blob index < 2 ^ 32 :=
  beNat_lt (by rw [slice_length])

theorem fdtInit_bounds {blob : Nat → UInt8} (hinit : fdtInit blob = .ok h) :
    h.offStruct + h.sizeStruct ≤ h.totalsize ∧ h.offStrings + h.sizeStrings ≤ h.totalsize := by
  have hfield := headerField_lt blob
  have h₈ := hfield 8
  have h₉ := hfield 9
  unfold fdtInit at hinit
  dsimp only at hinit
  split at hinit
  · cases hinit
  split at hinit
  · cases hinit
  split at hinit
  · cases hinit
  obtain rfl := Except.ok.inj hinit
  dsimp only
  omega

/--
The reader on a blob that `fdt_init` accepts.  It ends, and reads the two blocks only.  If
they are those of a tree, then a path is looked up rightly exactly if the first token is
the root's and either the first node with the name leads on at every component, or no
node has the path and a walk that never puts a component back does not use it up; and a
property of a node is found exactly if the node has it.
-/
theorem fdt_lookup {blob : Nat → UInt8} {h : FdtHandle} (hinit : fdtInit blob = .ok h) :
    (h.offStruct + h.sizeStruct ≤ h.totalsize ∧ h.offStrings + h.sizeStrings ≤ h.totalsize ∧
      ∀ path off propName, Safe (fdtFindNodeByPath h path) ∧ Safe (fdtGetProperty h off propName)) ∧
    ∀ (t : Tree) (ts : List Token), h.structBlock = encodeAll ts → Document t ts h.stringsBlock →
      (∀ cs, Components cs → (LookupExact (fdtFindNodeByPath h (absolutePath cs)) t ts cs ↔
          ts.head? ≠ some .nop ∧ (cs = [] ∨ t.children.Reaches cs ∨
              (cs ∉ t.chains ∧ t.children.leftover cs ≠ [])))) ∧
      ∀ (i off : Nat) (props : List Property), (nodeOffsets ts)[i]? = some off →
        t.nodeProps[i]? = some props → ∀ propName, (∀ p, props.find? (·.name = propName) = some p →
            FindsValue h.structBlock (fdtGetProperty h off propName) p) ∧
          (props.find? (·.name = propName) = none →
            fdtGetProperty h off propName = .error (.status .notFound)) := by
  obtain ⟨hstruct, hstrings⟩ := fdtInit_bounds hinit
  refine ⟨⟨hstruct, hstrings, fun path off propName =>
    ⟨findIn_safe _ path, propIn_safe _ _ off propName⟩⟩, fun t ts hblock hdoc => ?_⟩
  unfold fdtFindNodeByPath fdtGetProperty
  rw [hblock]
  exact ⟨fun cs hcs => lookupExact_iff hdoc hcs,
    fun i off props hoff hprops propName => propIn_document hdoc hoff hprops propName⟩

/-! ## Two children -/

def twoChildren : Tree :=
  ⟨[], [], .node [0x61] [] .nil (.node [0x62] [] .nil .nil)⟩

def twoChildrenBlob : Nat → UInt8 := fun i =>
  (be32 fdtMagic ++ be32 80 ++ be32 40 ++ be32 80 ++ be32 0 ++ be32 17 ++ be32 16 ++
    be32 0 ++ be32 0 ++ be32 40 ++ encodeAll twoChildren.tokens).getD i 0

def twoChildrenHandle : FdtHandle := ⟨twoChildrenBlob, 80, 40, 40, 80, 0, 17⟩

theorem twoChildren_init : fdtInit twoChildrenBlob = .ok twoChildrenHandle := by
  have hmagic : headerField twoChildrenBlob 0 = fdtMagic := by decide +kernel
  have htotal : headerField twoChildrenBlob 1 = 80 := by decide +kernel
  have hstruct : headerField twoChildrenBlob 2 = 40 := by decide +kernel
  have hstrings : headerField twoChildrenBlob 3 = 80 := by decide +kernel
  have hversion : headerField twoChildrenBlob 5 = 17 := by decide +kernel
  have hsizeStrings : headerField twoChildrenBlob 8 = 0 := by decide +kernel
  have hsizeStruct : headerField twoChildrenBlob 9 = 40 := by decide +kernel
  simp [fdtInit, hmagic, htotal, hstruct, hstrings, hversion, hsizeStrings, hsizeStruct,
    fdtVersion, twoChildrenHandle]

theorem twoChildren_block : twoChildrenHandle.structBlock = encodeAll twoChildren.tokens := by
  decide +kernel

theorem twoChildren_document :
    Document twoChildren twoChildren.tokens twoChildrenHandle.stringsBlock where
  tokens := by decide +kernel
  names := by
    intro name hname
    simp only [twoChildren, Tree.tokens, Forest.tokens, map_nil, nil_append,
      cons_append, mem_cons, beginNode.injEq, reduceCtorEq, false_or,
      not_mem_nil, or_false] at hname
    rcases hname with rfl | rfl | rfl <;> decide
  props := by
    intro p hp
    simp [twoChildren, Tree.tokens, Forest.tokens] at hp
  size := by decide +kernel
  strings_size := by decide +kernel

theorem fdt_lookup_second :
    fdtFindNodeByPath twoChildrenHandle (absolutePath [[0x62]]) = .ok 20 := by
  have hcs : Components [[0x62]] := by
    intro c hc
    obtain rfl := mem_singleton.mp hc
    decide
  have hexact := (((fdt_lookup twoChildren_init).2 _ _ twoChildren_block
    twoChildren_document).1 _ hcs).mpr ⟨by decide,
      .inr (.inl (.inr ⟨by decide, .inl ⟨rfl, .inl rfl⟩⟩))⟩
  rw [hexact]
  decide +kernel

/-- The path `/a/b` leads to the node `/b`. -/
theorem fdt_lookup_misled : fdtInit twoChildrenBlob = .ok twoChildrenHandle ∧
      twoChildrenHandle.structBlock = encodeAll twoChildren.tokens ∧
      Document twoChildren twoChildren.tokens twoChildrenHandle.stringsBlock ∧
      [[0x61], [0x62]] ∉ twoChildren.chains ∧
      twoChildren.chains[2]? = some [[0x62]] ∧
      (nodeOffsets twoChildren.tokens)[2]? = some 20 ∧
      fdtFindNodeByPath twoChildrenHandle (absolutePath [[0x61], [0x62]]) = .ok 20 := by
  refine ⟨twoChildren_init, twoChildren_block, twoChildren_document, by decide, rfl,
    by decide +kernel, ?_⟩
  unfold fdtFindNodeByPath
  rw [twoChildren_block]
  decide +kernel

end SlmOs.Fdt
