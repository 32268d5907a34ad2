import Mathlib

/-!
# Byte strings and the loops over them

Numbers in little-endian bytes, and loops that are driven by an iterator: it gives an
item or an error with what is left, or ends.
-/

namespace SlmOs.Foundation

abbrev Bytes := List UInt8

def leNat : Bytes → Nat
  | [] => 0
  | b :: bs => b.toNat + 256 * leNat bs

def toLe : Nat → Nat → Bytes
  | 0, _ => []
  | width + 1, n => UInt8.ofNat (n % 256) :: toLe width (n / 256)

@[simp] theorem toLe_length (width n : Nat) : (toLe width n).length = width := by
  induction width generalizing n with
  | zero => rfl
  | succ width ih => simp [toLe, ih]

theorem leNat_toLe (h : n < 256 ^ width) : leNat (toLe width n) = n := by
  induction width generalizing n with
  | zero =>
    obtain rfl : n = 0 := by simpa using h
    rfl
  | succ width ih =>
    have hdiv : n / 256 < 256 ^ width := by
      apply Nat.div_lt_of_lt_mul
      rwa [Nat.pow_succ, Nat.mul_comm] at h
    have hbyte : (UInt8.ofNat (n % 256)).toNat = n % 256 := by simp
    rw [toLe, leNat, ih hdiv, hbyte]
    exact Nat.mod_add_div n 256

theorem bind_eq_ok {ε α β : Type} {x : Except ε α} {f : α → Except ε β} {b : β} :
    (x >>= f) = .ok b ↔ ∃ a, x = .ok a ∧ f a = .ok b := by
  cases x <;> simp [bind, Except.bind]

theorem foldlM_ok {ε κ σ : Type} {body : σ → κ → Except ε σ} {ks : List κ} {s s' : σ}
    (View : List κ → σ → Prop) (hstart : View [] s)
    (hstep : ∀ front k s s', k ∈ ks → View front s → body s k = .ok s' → View (front ++ [k]) s')
    (h : ks.foldlM body s = .ok s') : View ks s' := by
  suffices hmain : ∀ (front back : List κ) (s : σ), front ++ back = ks → View front s →
      back.foldlM body s = .ok s' → View ks s' from hmain [] ks s rfl hstart h
  intro front back
  induction back generalizing front with
  | nil =>
    intro s hks hview h
    cases h
    rwa [← hks, List.append_nil]
  | cons k back ih =>
    intro s hks hview h
    rw [List.foldlM_cons, bind_eq_ok] at h
    obtain ⟨s₁, hbody, h⟩ := h
    have hmem : k ∈ ks := by simp [← hks]
    exact ih (front ++ [k]) s₁ (by simpa using hks) (hstep front k s s₁ hmem hview hbody) h

/-- An iterator over what is left of its input. -/
abbrev Next (ε α : Type) := Bytes → Option (Except ε α × Bytes)

section

variable {ε α σ : Type}

/-- The loop `for item in iter { body(item?)? }`, for at most `fuel` rounds. -/
def drive (next : Next ε α) (body : σ → α → Except ε σ) : Nat → σ → Bytes → Except ε σ
  | 0, s, _ => .ok s
  | fuel + 1, s, rest =>
    match next rest with
    | none => .ok s
    | some (.error e, _) => .error e
    | some (.ok a, rest) =>
      match body s a with
      | .error e => .error e
      | .ok s => drive next body fuel s rest

/-- Every item takes something off the input, and there is none in the empty one. -/
structure Advances (next : Next ε α) : Prop where
  empty : next [] = none
  item : ∀ rest a rest', next rest = some (.ok a, rest') → rest'.length < rest.length

def forEach (next : Next ε α) (body : σ → α → Except ε σ) (s : σ) (data : Bytes) : Except ε σ :=
  drive next body data.length s data

variable {body : σ → α → Except ε σ}

theorem drive_congr (h : Advances next) (hm : rest.length ≤ m)
    (hn : rest.length ≤ n) : drive next body m s rest = drive next body n s rest := by
  have hempty : ∀ k s, drive next body k s [] = .ok s := by
    intro k s
    cases k with
    | zero => rfl
    | succ k => simp [drive, h.empty]
  induction m generalizing s n rest with
  | zero =>
    obtain rfl : rest = [] := List.length_eq_zero_iff.mp (Nat.le_zero.mp hm)
    rw [hempty, hempty]
  | succ m ih =>
    cases n with
    | zero =>
      obtain rfl : rest = [] := List.length_eq_zero_iff.mp (Nat.le_zero.mp hn)
      rw [hempty, hempty]
    | succ n =>
      simp only [drive]
      split <;> try rfl
      rename_i a rest' hnext
      split <;> try rfl
      have hlt := h.item _ _ _ hnext
      apply ih
      · omega
      · omega

inductive Loops (next : Next ε α) (body : σ → α → Except ε σ) :
    σ → Bytes → Except ε σ → Prop
  | done {s : σ} {rest : Bytes} (h : next rest = none) : Loops next body s rest (.ok s)
  | failed {s : σ} {rest rest' : Bytes} {e : ε} (h : next rest = some (.error e, rest')) :
      Loops next body s rest (.error e)
  | refused {s : σ} {rest rest' : Bytes} {a : α} {e : ε} (h : next rest = some (.ok a, rest'))
      (hbody : body s a = .error e) : Loops next body s rest (.error e)
  | item {s s' : σ} {rest rest' : Bytes} {a : α} {r : Except ε σ}
      (h : next rest = some (.ok a, rest')) (hbody : body s a = .ok s')
      (hloop : Loops next body s' rest' r) : Loops next body s rest r

theorem loops_drive (h : Advances next) (hfuel : rest.length ≤ fuel) :
    Loops next body s rest (drive next body fuel s rest) := by
  induction fuel generalizing s rest with
  | zero =>
    obtain rfl : rest = [] := List.length_eq_zero_iff.mp (Nat.le_zero.mp hfuel)
    exact .done h.empty
  | succ fuel ih =>
    simp only [drive]
    split
    · rename_i hnext
      exact .done hnext
    · rename_i hnext
      exact .failed hnext
    rename_i a rest' hnext
    have hlt := h.item _ _ _ hnext
    split
    · rename_i hbody
      exact .refused hnext hbody
    rename_i hbody
    exact .item hnext hbody (ih (by omega))

theorem loops_forEach (h : Advances next) (data : Bytes) :
    Loops next body s data (forEach next body s data) :=
  loops_drive h le_rfl

theorem forEach_item (h : Advances next) (hnext : next data = some (.ok a, rest))
    (hbody : body s a = .ok s') : forEach next body s data = forEach next body s' rest := by
  have hlt := h.item _ _ _ hnext
  obtain ⟨n, hn⟩ : ∃ n, data.length = n + 1 := ⟨data.length - 1, by omega⟩
  rw [forEach, hn, drive, hnext]
  simp only [hbody]
  exact drive_congr h (by omega) le_rfl

theorem forEach_refused (h : Advances next) (hnext : next data = some (.ok a, rest))
    (hbody : body s a = .error e) : forEach next body s data = .error e := by
  have hlt := h.item _ _ _ hnext
  obtain ⟨n, hn⟩ : ∃ n, data.length = n + 1 := ⟨data.length - 1, by omega⟩
  rw [forEach, hn, drive, hnext]
  simp only [hbody]

theorem forEach_flatMap {next : Next ε α} {s : σ}
    (h : Advances next) {κ : Type} {enc : κ → Bytes} {item : κ → α}
    {ks : List κ} (hnext : ∀ k ∈ ks, ∀ rest, next (enc k ++ rest) = some (.ok (item k), rest)) :
    forEach next body s (ks.flatMap enc) = ks.foldlM (fun s k => body s (item k)) s := by
  induction ks generalizing s with
  | nil => rfl
  | cons k ks ih =>
    have hk := hnext k List.mem_cons_self (ks.flatMap enc)
    rw [List.flatMap_cons, List.foldlM_cons]
    cases hbody : body s (item k) with
    | ok s' =>
      rw [forEach_item h hk hbody, ih fun x hx => hnext x (List.mem_cons_of_mem _ hx)]
      rfl
    | error e =>
      rw [forEach_refused h hk hbody]
      rfl

end

end SlmOs.Foundation
