import Noid.Lib.ByteNumber
import Noid.Lib.Checked
import Mathlib.Data.Vector.Defs

/-! # Byte formats

A reader takes a value from the front of a byte string, or fails.  `Reads read write Valid` is the law of a canonical
format: the reader accepts exactly the valid values, each from its encoding only.  The law is kept by sequencing:
`Reads.run_bind` executes a reader on an encoding, `Reads.bind_eq_ok` inverts an execution. -/

namespace Noid.Lib

open List hiding Vector

abbrev Bytes := List UInt8

/-- A reader takes its value from the front of a byte string. -/
abbrev Reader (ε α : Type) := StateT Bytes (Except ε) α

variable {ε ε' α β : Type}

/-! ### Running readers -/

namespace Reader

variable {read : Reader ε α} {f : α → Reader ε β} {src mid rest : Bytes} {a : α} {b : β}

lemma bind_eq_ok :
    (read >>= f).run src = .ok (b, rest) ↔ ∃ a mid, read.run src = .ok (a, mid) ∧ (f a).run mid = .ok (b, rest) := by
  rw [StateT.run_bind, Noid.Lib.bind_eq_ok, Prod.exists]

lemma bind_of_ok (h : read.run src = .ok (a, mid)) : (read >>= f).run src = (f a).run mid := by
  rw [StateT.run_bind, Noid.Lib.bind_of_ok h]

lemma pure_eq_ok {a' : α} : (pure a : Reader ε α).run src = .ok (a', rest) ↔ a = a' ∧ src = rest := by
  rw [StateT.run_pure, Noid.Lib.pure_eq_ok, Prod.mk.injEq]

/-- A check that reads nothing. -/
theorem lift_eq_ok {x : Except ε α} : (liftM x : Reader ε α).run src = .ok (a, rest) ↔ x = .ok a ∧ src = rest := by
  cases x with
  | error e =>
    constructor
    · intro h
      cases h
    · rintro ⟨h, -⟩
      cases h
  | ok c =>
    change (Except.ok (c, src) : Except ε (α × Bytes)) = .ok (a, rest) ↔ _
    rw [Except.ok.injEq, Prod.mk.injEq, Except.ok.injEq]

lemma lift_bind_eq_ok {x : Except ε α} :
    (liftM x >>= f).run src = .ok (b, rest) ↔ ∃ a, x = .ok a ∧ (f a).run src = .ok (b, rest) := by
  simp only [bind_eq_ok, lift_eq_ok]
  constructor
  · rintro ⟨a, mid, ⟨hx, rfl⟩, hf⟩
    exact ⟨a, hx, hf⟩
  · rintro ⟨a, hx, hf⟩
    exact ⟨a, src, ⟨hx, rfl⟩, hf⟩

lemma lift_of_ok {x : Except ε α} (h : x = .ok a) : (liftM x : Reader ε α).run src = .ok (a, src) :=
  lift_eq_ok.mpr ⟨h, rfl⟩

def mapError (g : ε → ε') (read : Reader ε α) : Reader ε' α := fun src => (read.run src).mapError g

lemma mapError_eq_ok {g : ε → ε'} : (mapError g read).run src = .ok (a, rest) ↔ read.run src = .ok (a, rest) :=
  Noid.Lib.mapError_eq_ok

/-- Fail unless a condition holds. -/
def require (p : Prop) [Decidable p] (e : ε) : Reader ε Unit := liftM (Noid.Lib.require p e)

lemma require_bind_eq_ok {p : Prop} [Decidable p] {e : ε} {f : Unit → Reader ε β} :
    (require p e >>= f).run src = .ok (b, rest) ↔ p ∧ (f ()).run src = .ok (b, rest) := by
  rw [require, lift_bind_eq_ok]
  constructor
  · rintro ⟨⟨⟩, hp, hf⟩
    exact ⟨Noid.Lib.require_eq_ok.mp hp, hf⟩
  · rintro ⟨hp, hf⟩
    exact ⟨(), require_of e hp, hf⟩

lemma run_require_bind {p : Prop} [Decidable p] (e : ε) {f : Unit → Reader ε β} (h : p) :
    (require p e >>= f).run src = (f ()).run src :=
  bind_of_ok (lift_of_ok (require_of e h))

/-- The input that is left. -/
def remaining : Reader ε Bytes := get

lemma run_remaining_bind {f : Bytes → Reader ε β} : (remaining >>= f).run src = (f src).run src := rfl

/-- The inversion rules of the steps that read nothing, as one set of rewrites. -/
theorem ok_rules :
    (∀ {ε β : Type} {p : Prop} [Decidable p] {e : ε} {f : Unit → Reader ε β} {src rest : Bytes} {b : β},
        (require p e >>= f).run src = .ok (b, rest) ↔ p ∧ (f ()).run src = .ok (b, rest)) ∧
      (∀ {ε α β : Type} {x : Except ε α} {f : α → Reader ε β} {src rest : Bytes} {b : β},
        (liftM x >>= f).run src = .ok (b, rest) ↔ ∃ a, x = .ok a ∧ (f a).run src = .ok (b, rest)) ∧
      (∀ {ε α : Type} {x : Except ε α} {src rest : Bytes} {a : α},
        (liftM x : Reader ε α).run src = .ok (a, rest) ↔ x = .ok a ∧ src = rest) ∧
      (∀ {ε β : Type} {f : Bytes → Reader ε β} {src : Bytes}, (remaining >>= f).run src = (f src).run src) ∧
      ∀ {ε α : Type} {a a' : α} {src rest : Bytes},
        (pure a : Reader ε α).run src = .ok (a', rest) ↔ a = a' ∧ src = rest :=
  ⟨require_bind_eq_ok, lift_bind_eq_ok, lift_eq_ok, run_remaining_bind, pure_eq_ok⟩

end Reader

/-! ### The law of a format -/

/-- A reader accepts exactly the valid values, each from its encoding only. -/
structure Reads (read : Reader ε α) (write : α → Bytes) (Valid : α → Prop) : Prop where
  complete : ∀ a rest, Valid a → read.run (write a ++ rest) = .ok (a, rest)
  sound : ∀ src a rest, read.run src = .ok (a, rest) → Valid a ∧ src = write a ++ rest

namespace Reads

variable {read : Reader ε α} {write : α → Bytes} {Valid : α → Prop} {f : α → Reader ε β} {src rest : Bytes} {a : α}
  {b : β}

lemma of_iff (h : ∀ src a rest, read.run src = .ok (a, rest) ↔ Valid a ∧ src = write a ++ rest) :
    Reads read write Valid :=
  ⟨fun a rest ha => (h _ a rest).mpr ⟨ha, rfl⟩, fun src a rest => (h src a rest).mp⟩

lemma run_bind (h : Reads read write Valid) (ha : Valid a) : (read >>= f).run (write a ++ rest) = (f a).run rest :=
  Reader.bind_of_ok (h.complete a rest ha)

lemma eq_ok (h : Reads read write Valid) : read.run src = .ok (a, rest) ↔ Valid a ∧ src = write a ++ rest := by
  refine ⟨h.sound src a rest, ?_⟩
  rintro ⟨ha, rfl⟩
  exact h.complete a rest ha

lemma bind_eq_ok (h : Reads read write Valid) : (read >>= f).run src = .ok (b, rest) ↔
      ∃ a mid, (Valid a ∧ src = write a ++ mid) ∧ (f a).run mid = .ok (b, rest) := by
  simp only [Reader.bind_eq_ok, h.eq_ok]

/-- Encodings are prefix-free. -/
theorem inj {a' : α} {rest' : Bytes} (h : Reads read write Valid) (ha : Valid a) (ha' : Valid a')
    (heq : write a ++ rest = write a' ++ rest') : a = a' ∧ rest = rest' := by
  have hread := h.complete a rest ha
  rw [heq, h.complete a' rest' ha'] at hread
  cases hread
  exact ⟨rfl, rfl⟩

/-- A value that is read back whole. -/
theorem complete_nil (h : Reads read write Valid) (ha : Valid a) : read.run (write a) = .ok (a, []) := by
  have hread := h.complete a [] ha
  rwa [append_nil] at hread

lemma mapError (g : ε → ε') (h : Reads read write Valid) : Reads (Reader.mapError g read) write Valid := by
  refine ⟨fun a rest ha => ?_, fun src a rest hread => ?_⟩
  · exact Reader.mapError_eq_ok.mpr (h.complete a rest ha)
  · exact h.sound src a rest (Reader.mapError_eq_ok.mp hread)

lemma filter {check : α → Except ε Unit} {Ok : α → Prop} (h : Reads read write Valid)
    (hcheck : ∀ a, check a = .ok () ↔ Ok a) :
    Reads (do let a ← read; liftM (check a); return a) write (fun a => Valid a ∧ Ok a) := by
  refine ⟨fun a rest ha => ?_, fun src a rest hread => ?_⟩
  · rw [h.run_bind ha.1, Reader.bind_of_ok (Reader.lift_of_ok ((hcheck a).mpr ha.2)), StateT.run_pure]
    rfl
  · simp only [h.bind_eq_ok, Reader.bind_eq_ok, Reader.lift_eq_ok, Reader.pure_eq_ok] at hread
    obtain ⟨a', mid, ⟨ha, rfl⟩, ⟨⟩, mid', ⟨hok, rfl⟩, rfl, rfl⟩ := hread
    exact ⟨⟨ha, (hcheck a').mp hok⟩, rfl⟩

end Reads

/-! ### Raw bytes -/

/-- The next `count` bytes. -/
def take (e : ε) (count : ℕ) : Reader ε Bytes := fun src =>
  if src.length < count then .error e else .ok (src.take count, src.drop count)

lemma run_take (e : ε) {count : ℕ} {l rest : Bytes} (hl : l.length = count) :
    (take e count).run (l ++ rest) = .ok (l, rest) := by
  change take e count (l ++ rest) = _
  rw [take, if_neg (by simp [hl]), take_left' hl, drop_left' hl]

lemma reads_take (e : ε) (count : ℕ) : Reads (take e count) (fun l => l) (fun l => l.length = count) := by
  refine ⟨fun l rest hl => run_take e hl, fun src l rest h => ?_⟩
  · change take e count src = _ at h
    unfold take at h
    split_ifs at h with hlen
    cases h
    exact ⟨by rw [length_take]; omega, (take_append_drop count src).symm⟩

/-- A fixed string of bytes. -/
def literal (short bad : ε) (l : Bytes) : Reader ε Unit := do
  let l' ← take short l.length
  Reader.require (l' = l) bad

lemma run_literal_bind (short bad : ε) (l : Bytes) {f : Unit → Reader ε β} {rest : Bytes} :
    (literal short bad l >>= f).run (l ++ rest) = (f ()).run rest := by
  refine Reader.bind_of_ok ?_
  rw [literal, Reader.bind_of_ok (run_take short rfl)]
  exact Reader.lift_of_ok (require_of bad rfl)

lemma literal_bind_eq_ok {short bad : ε} {l : Bytes} {f : Unit → Reader ε β} {src rest : Bytes} {b : β} :
    (literal short bad l >>= f).run src = .ok (b, rest) ↔ ∃ mid, src = l ++ mid ∧ (f ()).run mid = .ok (b, rest) := by
  constructor
  · intro h
    simp only [literal, bind_assoc, (reads_take short _).bind_eq_ok, Reader.require_bind_eq_ok] at h
    obtain ⟨_, mid, ⟨-, rfl⟩, rfl, hf⟩ := h
    exact ⟨mid, rfl, hf⟩
  · rintro ⟨mid, rfl, hf⟩
    rwa [run_literal_bind]

/-! ### Numbers -/

/-- The bytes of a number, the least significant first. -/
def leBytes : ℕ → ℕ → Bytes
  | 0, _ => []
  | width + 1, n => UInt8.ofNat n :: leBytes width (n / 256)

/-- The number of a string of bytes, the least significant first. -/
def ofLe (l : Bytes) : ℕ := value (l.map UInt8.toNat)

/-- The bytes of a number, the most significant first. -/
def beBytes (width n : ℕ) : Bytes := (leBytes width n).reverse

/-- The number of a string of bytes, the most significant first. -/
def ofBe (l : Bytes) : ℕ := ofLe l.reverse

section
variable {width n : ℕ} {l : Bytes}

@[simp] lemma length_leBytes (width n : ℕ) : (leBytes width n).length = width := by
  induction width generalizing n with
  | zero => rfl
  | succ width ih => rw [leBytes, length_cons, ih]

@[simp] lemma length_beBytes (width n : ℕ) : (beBytes width n).length = width := by
  rw [beBytes, length_reverse, length_leBytes]

lemma isBytes_map_toNat (l : Bytes) : IsBytes l.length (l.map UInt8.toNat) := by
  refine ⟨length_map _, fun b hb => ?_⟩
  obtain ⟨x, -, rfl⟩ := mem_map.mp hb
  exact x.toNat_lt

lemma ofLe_lt (l : Bytes) : ofLe l < 2 ^ (8 * l.length) := by
  rw [pow_mul]
  exact (isBytes_map_toNat l).value_lt

lemma ofLe_leBytes (h : n < 2 ^ (8 * width)) : ofLe (leBytes width n) = n := by
  induction width generalizing n with
  | zero =>
    have hn : n = 0 := by simpa using h
    rw [hn]
    rfl
  | succ width ih =>
    have hdiv : n / 256 < 2 ^ (8 * width) := Nat.div_lt_of_lt_mul (by rw [Nat.mul_succ, pow_add] at h; omega)
    have hcons : ofLe (leBytes (width + 1) n) = n % 256 + 256 * ofLe (leBytes width (n / 256)) := by
      rfl
    rw [hcons, ih hdiv, Nat.mod_add_div]

lemma leBytes_ofLe (l : Bytes) : leBytes l.length (ofLe l) = l := by
  induction l with
  | nil => rfl
  | cons b l ih =>
    have hcons : ofLe (b :: l) = b.toNat + 256 * ofLe l := by
      rfl
    have hb : b.toNat < 256 := b.toNat_lt
    have hhead : UInt8.ofNat (ofLe (b :: l)) = b := by
      rw [← UInt8.toNat_inj, UInt8.toNat_ofNat', hcons]
      omega
    have htail : ofLe (b :: l) / 256 = ofLe l := by
      omega
    rw [length_cons, leBytes, hhead, htail, ih]

lemma ofBe_lt (l : Bytes) : ofBe l < 2 ^ (8 * l.length) := by
  have h := ofLe_lt l.reverse
  rwa [length_reverse] at h

lemma ofBe_beBytes (h : n < 2 ^ (8 * width)) : ofBe (beBytes width n) = n := by
  rw [ofBe, beBytes, reverse_reverse, ofLe_leBytes h]

lemma beBytes_ofBe (l : Bytes) : beBytes l.length (ofBe l) = l := by
  have h := leBytes_ofLe l.reverse
  rw [length_reverse] at h
  rw [beBytes, ofBe, h, reverse_reverse]

end

/-- A little-endian number of `width` bytes. -/
def takeLe (e : ε) (width : ℕ) : Reader ε ℕ := do
  let l ← take e width
  return ofLe l

/-- A big-endian number of `width` bytes. -/
def takeBe (e : ε) (width : ℕ) : Reader ε ℕ := do
  let l ← take e width
  return ofBe l

lemma reads_le (e : ε) (width : ℕ) : Reads (takeLe e width) (leBytes width) (· < 2 ^ (8 * width)) := by
  refine ⟨fun n rest hn => ?_, fun src n rest h => ?_⟩
  · rw [takeLe, Reader.bind_of_ok (run_take e (length_leBytes width n)), ofLe_leBytes hn]
    rfl
  · simp only [takeLe, (reads_take e width).bind_eq_ok, Reader.pure_eq_ok] at h
    obtain ⟨l, mid, ⟨rfl, rfl⟩, rfl, rfl⟩ := h
    exact ⟨ofLe_lt l, by rw [leBytes_ofLe]⟩

lemma reads_be (e : ε) (width : ℕ) : Reads (takeBe e width) (beBytes width) (· < 2 ^ (8 * width)) := by
  refine ⟨fun n rest hn => ?_, fun src n rest h => ?_⟩
  · rw [takeBe, Reader.bind_of_ok (run_take e (length_beBytes width n)), ofBe_beBytes hn]
    rfl
  · simp only [takeBe, (reads_take e width).bind_eq_ok, Reader.pure_eq_ok] at h
    obtain ⟨l, mid, ⟨rfl, rfl⟩, rfl, rfl⟩ := h
    exact ⟨ofBe_lt l, by rw [beBytes_ofBe]⟩

/-! ### Words -/

/-- The first `count` pieces of `width` bytes. -/
def chunks (width : ℕ) : ℕ → Bytes → List Bytes
  | 0, _ => []
  | count + 1, l => l.take width :: chunks width count (l.drop width)

/-- The first `count` little-endian numbers of `width` bytes. -/
def wordsOf (width count : ℕ) (l : Bytes) : List ℕ := (chunks width count l).map ofLe

section
variable {width count : ℕ}

lemma lt_of_mem_wordsOf {l : Bytes} {n : ℕ} (h : n ∈ wordsOf width count l) : n < 2 ^ (8 * width) := by
  induction count generalizing l with
  | zero => cases h
  | succ count ih =>
    rcases mem_cons.mp h with rfl | h
    · refine lt_of_lt_of_le (ofLe_lt _) (Nat.pow_le_pow_right (by decide) ?_)
      exact Nat.mul_le_mul_left 8 (length_take_le _ _)
    · exact ih h

lemma wordsOf_flatMap {l : List ℕ} (h : ∀ n ∈ l, n < 2 ^ (8 * width)) (hlen : l.length = count) :
    wordsOf width count (l.flatMap (leBytes width)) = l := by
  induction l generalizing count with
  | nil =>
    subst hlen
    rfl
  | cons n l ih =>
    subst hlen
    obtain ⟨hn, hl⟩ := forall_mem_cons.mp h
    rw [length_cons, wordsOf, chunks, flatMap_cons, take_left' (length_leBytes _ _),
      drop_left' (length_leBytes _ _), map_cons, ofLe_leBytes hn, ← wordsOf, ih hl rfl]

lemma flatMap_wordsOf {l : Bytes} (h : l.length = width * count) :
    (wordsOf width count l).flatMap (leBytes width) = l := by
  induction count generalizing l with
  | zero =>
    rw [eq_nil_of_length_eq_zero h]
    rfl
  | succ count ih =>
    have hhead : (l.take width).length = width := by
      rw [length_take, h]
      exact min_eq_left (Nat.le_mul_of_pos_right _ count.succ_pos)
    have htail : (l.drop width).length = width * count := by
      rw [length_drop, h, Nat.mul_succ, Nat.add_sub_cancel]
    have hword := leBytes_ofLe (l.take width)
    rw [hhead] at hword
    rw [wordsOf, chunks, map_cons, flatMap_cons, ← wordsOf, hword, ih htail, take_append_drop]

end

/-! ### Sizes -/

variable {write : α → Bytes} {Valid : α → Prop}

/-- A value behind its size, which is checked against the input that is left. -/
theorem reads_sized {parse : Bytes → Except ε α} {width : ℕ}
    {Ok : ℕ → Bytes → Prop} [∀ size cursor, Decidable (Ok size cursor)] (short bad long : ε)
    (hparse : ∀ raw a, parse raw = .ok a ↔ Valid a ∧ raw = write a)
    (hwidth : ∀ a, Valid a → (write a).length < 2 ^ (8 * width))
    (hok : ∀ a rest, Valid a → Ok (write a).length (write a ++ rest)) :
    Reads (do
        let size ← takeLe short width
        let cursor ← Reader.remaining
        Reader.require (Ok size cursor) bad
        let raw ← take long size
        liftM (parse raw))
      (fun a => leBytes width (write a).length ++ write a) Valid := by
  refine ⟨fun a rest h => ?_, fun src a rest h => ?_⟩
  · rw [append_assoc, (reads_le _ _).run_bind (hwidth a h), Reader.run_remaining_bind,
      Reader.run_require_bind _ (hok a rest h), Reader.bind_of_ok (run_take _ rfl)]
    exact Reader.lift_of_ok ((hparse _ _).mpr ⟨h, rfl⟩)
  · simp only [(reads_le _ _).bind_eq_ok, Reader.run_remaining_bind, Reader.require_bind_eq_ok,
      (reads_take _ _).bind_eq_ok, Reader.lift_eq_ok, hparse] at h
    obtain ⟨size, _, ⟨-, rfl⟩, -, raw, _, ⟨rfl, rfl⟩, ⟨ha, rfl⟩, rfl⟩ := h
    exact ⟨ha, by rw [append_assoc]⟩

/-! ### Repetition -/

section
variable {σ : Type} {read : σ → Reader ε α} {write : α → Bytes} {Valid : σ → α → Prop}

/-- A number of values, each read in the state that the ones before it leave. -/
def readChain (read : σ → Reader ε α) (next : σ → α → σ) : σ → ℕ → Reader ε (List α)
  | _, 0 => return []
  | s, count + 1 => do
    let a ← read s
    let l ← readChain read next (next s a) count
    return a :: l

/-- Each value is valid in the state that the ones before it leave. -/
def Chained (next : σ → α → σ) (Valid : σ → α → Prop) : σ → List α → Prop
  | _, [] => True
  | s, a :: l => Valid s a ∧ Chained next Valid (next s a) l

lemma reads_chain (h : ∀ s, Reads (read s) write (Valid s)) (next : σ → α → σ) (count : ℕ) (s : σ) :
    Reads (readChain read next s count) (fun l => l.flatMap write)
      (fun l => l.length = count ∧ Chained next Valid s l) := by
  induction count generalizing s with
  | zero =>
    refine ⟨fun l rest hl => ?_, fun src l rest hread => ?_⟩
    · rw [eq_nil_of_length_eq_zero hl.1]
      rfl
    · obtain ⟨rfl, rfl⟩ := Reader.pure_eq_ok.mp hread
      exact ⟨⟨rfl, trivial⟩, rfl⟩
  | succ count ih =>
    refine ⟨fun l rest hl => ?_, fun src l rest hread => ?_⟩
    · obtain ⟨a, l, rfl⟩ := exists_cons_of_length_eq_add_one hl.1
      rw [readChain, flatMap_cons, append_assoc, (h s).run_bind hl.2.1,
        Reader.bind_of_ok ((ih (next s a)).complete l rest ⟨Nat.succ.inj hl.1, hl.2.2⟩)]
      rfl
    · simp only [readChain, (h s).bind_eq_ok, Reader.bind_eq_ok, Reader.pure_eq_ok] at hread
      obtain ⟨a, mid, ⟨ha, rfl⟩, l, mid', hrest, rfl, rfl⟩ := hread
      obtain ⟨⟨hlen, hall⟩, rfl⟩ := (ih (next s a)).sound _ _ _ hrest
      refine ⟨⟨by rw [length_cons, hlen], ha, hall⟩, ?_⟩
      rw [flatMap_cons, append_assoc]

lemma ascending_cons {κ : Type} [Preorder κ] {previous : Option κ} {k : κ} {l : List κ} :
    (previous.toList ++ k :: l).Pairwise (· < ·) ↔
      (∀ old ∈ previous, old < k) ∧ ((some k).toList ++ l).Pairwise (· < ·) := by
  cases previous with
  | none => simp
  | some old =>
    simp only [Option.toList_some, cons_append, nil_append, pairwise_cons, forall_mem_cons,
      Option.mem_def, Option.some.injEq, forall_eq']
    constructor
    · rintro ⟨⟨hold, -⟩, hlt, hsorted⟩
      exact ⟨hold, hlt, hsorted⟩
    · rintro ⟨hold, hlt, hsorted⟩
      exact ⟨⟨hold, fun k' hk' => hold.trans (hlt k' hk')⟩, hlt, hsorted⟩

lemma chained_ascending {κ : Type} [Preorder κ] {key : α → κ} {V : α → Prop} {l : List α} {previous : Option κ} :
    Chained (fun _ a => some (key a)) (fun previous a => V a ∧ ∀ old ∈ previous, old < key a) previous l ↔
      (∀ a ∈ l, V a) ∧ (previous.toList ++ l.map key).Pairwise (· < ·) := by
  induction l generalizing previous with
  | nil => cases previous <;> simp [Chained]
  | cons a l ih =>
    rw [Chained, ih, forall_mem_cons, map_cons, ascending_cons]
    exact and_and_and_comm

end

/-- A number of values, one after the other. -/
def readMany (read : Reader ε α) : ℕ → Reader ε (List α)
  | 0 => return []
  | count + 1 => do
    let a ← read
    let l ← readMany read count
    return a :: l

lemma reads_many {read : Reader ε α} (h : Reads read write Valid) (count : ℕ) :
    Reads (readMany read count) (fun l => l.flatMap write) (fun l => l.length = count ∧ ∀ a ∈ l, Valid a) := by
  have hmany : readMany read count = readChain (fun _ : Unit => read) (fun _ _ => ()) () count := by
    induction count with
    | zero => rfl
    | succ count ih => rw [readMany, readChain, ih]
  have hall : ∀ l, Chained (fun _ _ => ()) (fun _ : Unit => Valid) () l ↔ ∀ a ∈ l, Valid a := by
    intro l
    induction l with
    | nil => simp [Chained]
    | cons a l ih => rw [Chained, ih, forall_mem_cons]
  have hchain := reads_chain (fun _ : Unit => h) (fun _ _ => ()) count ()
  simpa only [hmany, hall] using hchain

/-- Records of at least so many bytes. -/
theorem le_length_flatMap {width : ℕ} {l : List α} (h : ∀ a ∈ l, width ≤ (write a).length) :
    l.length * width ≤ (l.flatMap write).length := by
  have hsum := card_nsmul_le_sum (l.map fun a => (write a).length) width (forall_mem_map.mpr h)
  rwa [length_map, nsmul_eq_mul, Nat.cast_id, ← length_flatMap] at hsum

lemma length_flatMap_le {width : ℕ} {l : List α} (h : ∀ a ∈ l, (write a).length ≤ width) :
    (l.flatMap write).length ≤ l.length * width := by
  have hsum := (l.map fun a => (write a).length).sum_le_card_nsmul width (forall_mem_map.mpr h)
  rwa [length_map, nsmul_eq_mul, Nat.cast_id, ← length_flatMap] at hsum

/-- A fixed number of values. -/
def readVector (read : Reader ε α) : (count : ℕ) → Reader ε (Vector α count)
  | 0 => return #v[]
  | count + 1 => do
    let v ← readVector read count
    let a ← read
    return v.push a

lemma reads_vector {read : Reader ε α} (h : Reads read write Valid) (count : ℕ) :
    Reads (readVector read count) (fun v => v.toList.flatMap write) (fun v => ∀ a ∈ v.toList, Valid a) := by
  induction count with
  | zero =>
    refine ⟨fun v rest _ => ?_, fun src v rest hread => ?_⟩
    · obtain rfl : v = #v[] := Vector.eq_empty
      rfl
    · obtain ⟨rfl, rfl⟩ := Reader.pure_eq_ok.mp hread
      exact ⟨fun _ ha => (by cases ha), rfl⟩
  | succ count ih =>
    refine ⟨fun v rest hv => ?_, fun src v rest hread => ?_⟩
    · rw [← Vector.push_pop_back v] at hv ⊢
      simp only [Vector.toList_push, forall_mem_append, forall_mem_singleton] at hv
      rw [readVector, Vector.toList_push, flatMap_append, append_assoc, ih.run_bind hv.1,
        flatMap_singleton, h.run_bind hv.2]
      rfl
    · simp only [readVector, h.bind_eq_ok, ih.bind_eq_ok, Reader.pure_eq_ok] at hread
      obtain ⟨v, mid, ⟨hv, rfl⟩, a, mid', ⟨ha, rfl⟩, rfl, rfl⟩ := hread
      simp only [Vector.toList_push, forall_mem_append, forall_mem_singleton, flatMap_append,
        flatMap_singleton, append_assoc]
      exact ⟨⟨hv, ha⟩, trivial⟩

end Noid.Lib
